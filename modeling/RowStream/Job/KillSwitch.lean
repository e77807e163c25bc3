import RowStream.Error

/-!
# Kill switches

A kill switch can be flipped once; the first reason stays.
-/

namespace RowStream

/-- A switch, flipped once there is a reason. -/
structure KillSwitch where
  reason : Option String
  deriving DecidableEq, Inhabited

namespace KillSwitch

def new : KillSwitch := ⟨none⟩

def isKilled (k : KillSwitch) : Bool := k.reason.isSome

/-- Flips the switch, unless it is flipped already. -/
def kill (k : KillSwitch) (reason : String) : KillSwitch := ⟨k.reason.or (some reason)⟩

/-- Passes only as long as the switch is not flipped. -/
def check (k : KillSwitch) : Except OpError Unit :=
  match k.reason with
  | some reason => .error (.jobKilled reason)
  | none => .ok ()

@[simp] theorem reason_kill (k : KillSwitch) (reason : String) :
    (k.kill reason).reason = some (k.reason.getD reason) := by
  cases h : k.reason <;> simp [kill, h]

end KillSwitch

end RowStream
