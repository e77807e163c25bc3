import RowStream.Engine.Plan
import RowStream.Proofs.Aggregate.Ownership
import RowStream.Proofs.Collector.Groups
import RowStream.Proofs.Stream.Meaning

/-!
# How operators may fail

Operators of plans without fault fail because memory was refused or because a value is missing or of
the wrong type, and in no other way: they never come across something that the engine itself got
wrong. For that, collectors of aggregates have to keep states that belong to their aggregates, which is
what `Collector.Sound` says; the other operators need nothing.

* `OpError.Foreseen` — errors that are nobody's mistake inside of the engine.
* `Metered.Behaves` — computations that fail with such errors only.
* `Collector.accumulate_behaves`, `Collector.finish_behaves` — one case for each collector.
* `Operator.take_behaves`, `Operator.conclude_behaves` — operators.
* `Projection.sound_operator` — the operator of a plan without fault is sound.
-/

namespace RowStream

/-- Errors that are no mistake of the engine: memory is refused, a value is missing or of the wrong
type, the source fails, or the job is killed. -/
inductive OpError.Foreseen : OpError → Prop where
  | memory (cause : MemoryError) : Foreseen (.memory cause)
  | evaluation (cause : EvalError) : Foreseen (.evaluation cause)
  | sourceFailed (reason : String) : Foreseen (.sourceFailed reason)
  | jobKilled (reason : String) : Foreseen (.jobKilled reason)

theorem OpError.IsEvaluation.foreseen {e : OpError} (h : e.IsEvaluation) : e.Foreseen := by
  obtain ⟨cause, rfl⟩ := h
  exact .evaluation cause

/-! ## Computations

All that is asked of the budget can be refused, and a refusal is foreseen. So it is enough to know
the outcome of a trace, where nothing is refused; results under limits follow. -/

/-- A step left what `post` says, or it failed with a foreseen error. -/
def StepResult.Behaves {κ σ α : Type} (r : StepResult OpError κ σ α) (post : α → σ → Prop) : Prop :=
  match r with
  | .ok a (t, _) => post a t
  | .error e _ => e.Foreseen

namespace Metered

variable {σ τ α β : Type}

/-- From `s`, the computation behaves whatever the budget. -/
def Behaves (m : Metered.Op σ α) (s : σ) (post : α → σ → Prop) : Prop :=
  ∀ b, StepResult.Behaves (m (s, b)) post

variable {m : Metered.Op σ α} {s : σ} {post : α → σ → Prop}

theorem behaves_modifyState {f : σ → σ} {post : Unit → σ → Prop} (h : post () (f s)) :
    (modifyState f : Metered.Op σ Unit).Behaves s post := fun _ => h

/-- What is known of the outcome of a trace is known under every budget, since all that can come in
between is a refusal of memory. -/
theorem Follows.behaves {ms : List Movement} {r : Except OpError α} {t : σ}
    (h : m.Follows s ms r t) (hok : ∀ a, r = .ok a → post a t)
    (herror : ∀ e, r = .error e → e.Foreseen) : m.Behaves s post := fun b => by
  cases hreplay : b.replay ms with
  | ok u b' =>
    rw [h.granted hreplay]
    cases r with
    | ok a => exact hok a rfl
    | error e => exact herror e rfl
  | error e b' =>
    obtain ⟨u, hu⟩ := h.refused hreplay
    rw [hu]
    exact .memory e

theorem Yields.behaves {r : Except OpError α} {last : σ → Prop} (h : m.Yields s r last)
    (hok : ∀ a t, r = .ok a → last t → post a t) (herror : ∀ e, r = .error e → e.Foreseen) :
    m.Behaves s post := by
  obtain ⟨ms, t, ht, h⟩ := h
  exact h.behaves (fun a ha => hok a t ha ht) herror

/-- What is known of the outcome of a trace is known of every good result. -/
theorem Behaves.and_of_follows {ms : List Movement} {r : Except OpError α} {t : σ}
    (hm : m.Behaves s post) (h : m.Follows s ms r t) :
    m.Behaves s fun a u => post a u ∧ r = .ok a ∧ t = u := fun b => by
  have hresult := hm b
  cases hreplay : b.replay ms with
  | ok u b' =>
    rw [h.granted hreplay] at hresult ⊢
    cases r with
    | ok a => exact ⟨hresult, rfl, rfl⟩
    | error e => exact hresult
  | error e b' =>
    obtain ⟨u, hu⟩ := h.refused hreplay
    rw [hu]
    exact .memory e

theorem Behaves.bind {f : α → Metered.Op σ β} {post' : β → σ → Prop} (hm : m.Behaves s post)
    (hf : ∀ a t, post a t → (f a).Behaves t post') : (m >>= f).Behaves s post' := fun b => by
  have hfirst := hm b
  rcases hrun : m (s, b) with ⟨a, t, b'⟩ | ⟨e, t, b'⟩ <;> rw [hrun] at hfirst
  · rw [bind_of_ok hrun]
    exact hf a t hfirst b'
  · rw [bind_of_error hrun]
    exact hfirst

/-- A computation that is another one within a whole. -/
theorem Behaves.within {whole : σ → τ} {n : Metered.Op τ α} {u : τ} {post' : α → τ → Prop}
    (hm : m.Behaves s post) (hn : ∀ b, n (u, b) = StepResult.within whole (m (s, b)))
    (h : ∀ a t, post a t → post' a (whole t)) : n.Behaves u post' := fun b => by
  have hpart := hm b
  rw [hn]
  rcases hrun : m (s, b) with ⟨a, t, b'⟩ | ⟨e, t, b'⟩ <;> rw [hrun] at hpart
  · exact h a t hpart
  · exact hpart

theorem Behaves.zoom {get : σ → τ} {set : σ → τ → σ} {m : Metered.Op τ α} {post : α → τ → Prop}
    {post' : α → σ → Prop} (hm : m.Behaves (get s) post) (h : ∀ a t, post a t → post' a (set s t)) :
    (Metered.zoom get set m).Behaves s post' :=
  hm.within (fun _ => rfl) h

end Metered

theorem OpError.foreseen_of_ofEval {α : Type} {x : Except EvalError α} {e : OpError}
    (h : OpError.ofEval x = .error e) : e.Foreseen := by
  cases x with
  | error cause =>
    cases h
    exact .evaluation cause
  | ok a => cases h

/-! ## Collectors

The invariant is that of the aggregates, for one list of states or for the states of every group. It
is kept by rows that fail, too. -/

namespace Totals

/-- The states are those of the aggregates, which have the columns they need. -/
def Sound (t : Totals) : Prop := t.aggregates.Valid ∧ t.aggregates.Owns t.states

theorem accumulate_behaves (row : Row) {t : Totals} (h : t.Sound) :
    (accumulate row).Behaves t fun _ u => u.Sound := fun b => by
  obtain ⟨howns, herror⟩ := Aggregates.update_spec h.1 h.2 row
  unfold accumulate
  rcases hupdate : t.aggregates.update t.states row with ⟨e | _, states⟩ <;>
    rw [hupdate] at howns herror <;> simp only [hupdate]
  · exact (herror e rfl).foreseen
  · exact ⟨h.1, howns⟩

theorem finish_behaves {t : Totals} (h : t.Sound) : finish.Behaves t fun _ u => u.Sound :=
  fun _ => ⟨h.1, t.aggregates.owns_init⟩

end Totals

namespace GroupTable

/-- So are the states of every group. -/
def Sound (t : GroupTable) : Prop :=
  t.aggregates.Valid ∧ ∀ g ∈ t.groups, t.aggregates.Owns g.states

theorem accumulate_behaves (row : Row) {t : GroupTable} (h : t.Sound) :
    (accumulate row).Behaves t fun _ u => u.Sound := by
  cases hkey : keyOf row t.keys with
  | error cause =>
    intro b
    simp only [accumulate, hkey]
    exact .evaluation cause
  | ok key =>
    obtain ⟨ms, scope, hrow⟩ := follows_accumulate hkey
    have hopened := forall_opened key h.2 t.aggregates.owns_init
    have hupdate : ∀ states, t.aggregates.Owns states →
        t.aggregates.Owns (t.aggregates.update states row).2 := fun states hstates =>
      (Aggregates.update_spec h.1 hstates row).1
    have hgroups := forall_foldRow hopened (fun g => hupdate g.states) key
    rw [← groups_taken t key row scope] at hgroups
    refine hrow.behaves (fun _ _ => ⟨h.1, hgroups⟩) fun e he => ?_
    obtain ⟨g, hg, herror⟩ := exists_of_foldRow_error he
    exact ((Aggregates.update_spec h.1 (hopened g hg) row).2 e herror).foreseen

theorem finish_behaves {t : GroupTable} (h : t.Sound) : finish.Behaves t fun _ u => u.Sound :=
  fun _ => ⟨h.1, nofun⟩

end GroupTable

namespace Collector

/-- Collectors of aggregates keep states of their aggregates; the others keep rows. -/
def Sound : Collector → Prop
  | totals t => t.Sound
  | group t => t.Sound
  | sort _ | top _ => True

/-- **A row is taken**, unless memory is refused or the row lacks a value. -/
theorem accumulate_behaves (row : Row) {c : Collector} (h : c.Sound) :
    (accumulate row).Behaves c fun _ d => d.Sound := by
  cases c with
  | sort s =>
    have hrow : (SortBuffer.accumulate row).Behaves s fun _ _ => True :=
      (s.follows_accumulate row).behaves (fun _ _ => trivial) nofun
    exact hrow.within (fun _ => rfl) fun _ _ _ => trivial
  | top s =>
    have hrow : (TopBuffer.accumulate row).Behaves s fun _ _ => True :=
      (s.yields_accumulate row).behaves (fun _ _ _ _ => trivial) nofun
    exact hrow.within (fun _ => rfl) fun _ _ _ => trivial
  | totals t => exact (Totals.accumulate_behaves row h).within (fun _ => rfl) fun _ _ => id
  | group t => exact (GroupTable.accumulate_behaves row h).within (fun _ => rfl) fun _ _ => id

theorem finish_behaves {c : Collector} (h : c.Sound) : finish.Behaves c fun _ d => d.Sound := by
  cases c with
  | sort s =>
    have hrows : SortBuffer.finish.Behaves s fun _ _ => True :=
      s.yields_finish.behaves (fun _ _ _ _ => trivial) fun _ => OpError.foreseen_of_ofEval
    exact hrows.within (fun _ => rfl) fun _ _ _ => trivial
  | top s =>
    have hrows : TopBuffer.finish.Behaves s fun _ _ => True :=
      s.yields_finish.behaves (fun _ _ _ _ => trivial) fun _ => OpError.foreseen_of_ofEval
    exact hrows.within (fun _ => rfl) fun _ _ _ => trivial
  | totals t => exact (Totals.finish_behaves h).within (fun _ => rfl) fun _ _ => id
  | group t => exact (GroupTable.finish_behaves h).within (fun _ => rfl) fun _ _ => id

end Collector

/-! ## Operators

One case for each operator, with the invariant of its collector if it has one. -/

namespace Operator

def Sound : Operator → Prop
  | collect c => c.collector.Sound
  | filter _ | limit _ => True

theorem foreseen_of_map {α β : Type} {x : Except EvalError α} {f : α → β} {e : OpError}
    (h : (OpError.ofEval x).map f = .error e) : e.Foreseen := by
  cases x with
  | error cause =>
    cases h
    exact .evaluation cause
  | ok a => cases h

/-- **A row is taken** by any sound operator, which stays sound. -/
theorem take_behaves (row : Row) {op : Operator} (h : op.Sound) :
    (take row).Behaves op fun _ op' => op'.Sound := by
  cases op with
  | filter f =>
    have hrow : (RowFilter.take row).Behaves f fun _ _ => True :=
      (f.yields_take row).behaves (fun _ _ _ _ => trivial) fun _ => OpError.foreseen_of_ofEval
    exact hrow.within (fun _ => rfl) fun _ _ _ => trivial
  | limit l =>
    have hrow : (RowLimit.take row).Behaves l fun _ _ => True := by
      obtain ⟨-, htake⟩ | ⟨k, -, htake⟩ := l.yields_take row
      · exact htake.behaves (fun _ _ _ _ => trivial) fun _ => foreseen_of_map
      · exact htake.behaves (fun _ _ => trivial) nofun
    exact hrow.within (fun _ => rfl) fun _ _ _ => trivial
  | collect c =>
    have hrow : (Collection.take row).Behaves c fun _ d => d.collector.Sound :=
      (Collector.accumulate_behaves row h).zoom fun _ _ hd => hd
    intro b
    -- a collection shows no row, and the flag that says so is all that is put on top of the run
    have hresult := hrow b
    unfold take
    rcases hrun : Collection.take row (c, b) with ⟨a, d, b'⟩ | ⟨e, d, b'⟩ <;>
    · rw [hrun] at hresult
      simp only [hrun]
      exact hresult

theorem sound_next {op : Operator} (h : op.Sound) : op.next.2.Sound := by
  cases op with
  | filter f => trivial
  | limit l => trivial
  | collect c =>
    obtain ⟨collector, finished, results, current⟩ := c
    cases results <;> exact h

theorem finish_behaves {op : Operator} (h : op.Sound) : finish.Behaves op fun _ op' => op'.Sound := by
  cases op with
  | filter f => exact fun _ => trivial
  | limit l => exact fun _ => trivial
  | collect c =>
    have hfinish : Collection.finish.Behaves c fun _ d => d.collector.Sound :=
      ((Collector.finish_behaves h).zoom fun _ _ hd => hd).bind fun rows d hd =>
        Metered.behaves_modifyState hd
    exact hfinish.within (fun _ => rfl) fun _ _ hd => hd

/-- **The source is exhausted**, and the operator hands out what it has. -/
theorem conclude_behaves {op : Operator} (h : op.Sound) (hop : op.isComplete = false) :
    conclude.Behaves op fun shown op' => op'.Sound ∧ op.Concluded (.ok shown) op' := by
  have hsound : conclude.Behaves op fun _ op' => op'.Sound :=
    (finish_behaves h).bind fun _ _ hop _ => sound_next hop
  obtain ⟨ms, r, op', hconcluded, htrace⟩ := conclude_spec hop
  intro b
  have hresult := hsound.and_of_follows htrace b
  rcases hrun : conclude (op, b) with ⟨shown, u, b'⟩ | ⟨e, u, b'⟩ <;> rw [hrun] at hresult
  · obtain ⟨hu, rfl, rfl⟩ := hresult
    exact ⟨hu, hconcluded⟩
  · exact hresult

end Operator

/-- The operator of a plan without fault. -/
theorem Projection.sound_operator {p : Projection} (h : p.check = .ok ()) (footprint : Footprint) :
    (p.operator footprint).Sound := by
  cases p with
  | filter p => trivial
  | topN p => trivial
  | orderedTopN p =>
    obtain ⟨limit, offset, outputs, orderBy, descending, nullsFirst⟩ := p
    cases limit <;> trivial
  | aggregation p => exact ⟨h, Aggregates.owns_init _⟩
  | group p =>
    refine ⟨?_, nofun⟩
    unfold check at h
    simp only at h
    split at h
    · cases h
    · exact h

end RowStream
