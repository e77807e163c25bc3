import RowStream.Digest.Blake3
import RowStream.Text.Hex

/-!
# Fingerprints

A fingerprint identifies content by its digest. It is shown in full or by its first eight bytes.
-/

namespace RowStream

/-- The digest of some content. -/
structure Fingerprint where
  bytes : List UInt8
  deriving DecidableEq

namespace Fingerprint

def ofBytes (content : List UInt8) : Fingerprint := ⟨Blake3.digest content⟩

def ofText (content : String) : Fingerprint := ofBytes content.toUTF8.toList

def toHex (f : Fingerprint) : String := Text.hex f.bytes

/-- The short form: the first eight bytes. -/
def short (f : Fingerprint) : String := Text.hex (f.bytes.take 8)

end Fingerprint

end RowStream
