/-
# Writers keep out of each other's way

Any number of writers publish into one ring, access by access, in any order, while the reader
commits what it likes. A history is such a race together with the accesses made so far; the
sequences handed out and the slot writes begun are read off these. Whatever the order, no two
writers are between the two stamps of one slot, sequences become visible one by one and in order, a
visible record stays whole until the next writer of its slot begins, and somebody can always go on.

Two waits carry this. A writer of `s` that passed the first knows that everything one round and
more below `s` is visible, so all writers past it are within one round of each other. One that
passed the second knows that everything below `s` is visible, so `s` is the next to become so.

Key definitions: `Access`, `History`, `History.next`, `History.run`, `History.Safe`, `History.Inv`.
Key theorems: `History.Inv.advance`, `History.Inv.reveal`, `History.inv_next`, `History.safe_run`.
-/
import LogRelay.Proofs.Retention
import LogRelay.Ring.Race
import Mathlib.Data.List.Nodup

namespace LogRelay

/-! ### Histories -/

/-- An access that a writer made: the record it publishes and the stage it reached. -/
structure Access where
  encoded : Bytes
  reached : Stage
  deriving DecidableEq, Repr

namespace Access

/-- The sequence that was handed out with this access, and the record that got it. -/
def handed? (a : Access) : Option (Nat × Bytes) :=
  match a.reached with
  | .checking seq => some (seq, a.encoded)
  | _ => none

/-- The sequence whose slot write began with this access. -/
def begun? (a : Access) : Option Nat :=
  match a.reached with
  | .copying seq => some seq
  | _ => none

end Access

/-- The access that a writer makes next, if it can make one. -/
def Writer.access? {g : Geometry} (w : Writer) (ring : Ring g) : Option Access :=
  match w.pending with
  | [] => none
  | encoded :: _ => (ring.access encoded w.stage).map fun next => ⟨encoded, next.2⟩

/-- A race and the accesses that its writers made, the first one in front. -/
structure History (g : Geometry) where
  race : Race g
  accesses : List Access

/-- What may happen in a race. -/
inductive RaceEvent
  /-- Writer number `i` makes one access, if it can make one. -/
  | access (i : Nat)
  /-- The reader marks everything below `next` as consumed. -/
  | commit (next : Nat)

namespace History

variable {g : Geometry}

/-- Writers with lists of records to publish into an empty ring. -/
def start (g : Geometry) (lists : List (List Bytes)) : History g :=
  ⟨⟨Ring.empty g, lists.map fun records => ⟨records, .claiming⟩⟩, []⟩

/-- The history after one more event. -/
def next (h : History g) : RaceEvent → History g
  | .commit next => { h with race := { h.race with ring := h.race.ring.commit next } }
  | .access i =>
    match h.race.step i with
    | none => h
    | some race =>
      ⟨race, h.accesses ++ (h.race.writers[i]?.bind (·.access? h.race.ring)).toList⟩

/-- The history after some more events. -/
def run (h : History g) (events : List RaceEvent) : History g := events.foldl next h

/-- The sequences handed out, each with the record that got it. -/
def handed (h : History g) : List (Nat × Bytes) := h.accesses.filterMap Access.handed?

/-- The sequences whose slot write began. -/
def begun (h : History g) : List Nat := h.accesses.filterMap Access.begun?

end History

/-! ### Safety -/

/-- The sequence that is being written into its slot: its first stamp is set and its second is
not. -/
def Stage.writing? : Stage → Option Nat
  | copying seq | ending seq => some seq
  | _ => none

/-- The writer is in the middle of a publication. -/
def Writer.InCall (w : Writer) : Prop := w.stage.sequence? ≠ none

/-- What holds of a race at every moment. -/
structure History.Safe {g : Geometry} (h : History g) : Prop where
  /-- Two writers never write into one slot. -/
  exclusive : ∀ (i j : Nat) (v w : Writer) (s t : Nat), i ≠ j → h.race.writers[i]? = some v →
    h.race.writers[j]? = some w → v.stage.writing? = some s → w.stage.writing? = some t →
      g.index s ≠ g.index t
  published_le : h.race.ring.published ≤ h.race.ring.claimed
  /-- Sequences become visible one by one. -/
  published_next : ∀ event, (h.next event).race.ring.published = h.race.ring.published ∨
    (h.next event).race.ring.published = h.race.ring.published + 1
  /-- Every sequence below the claimed cursor was handed out, and to one record. -/
  handed : h.handed.map Prod.fst = List.range h.race.ring.claimed
  /-- A visible record is whole until the next writer of its slot begins. -/
  visible : ∀ s encoded, (s, encoded) ∈ h.handed → s < h.race.ring.published →
    s + g.slotCount ∉ h.begun → h.race.ring.Holds s encoded
  /-- If a publication is under way, one that is can go on. -/
  call_moves : ∀ w ∈ h.race.writers, w.InCall → ∃ (i : Nat) (v : Writer),
    h.race.writers[i]? = some v ∧ v.InCall ∧ (h.race.step i).isSome
  /-- If a record is left to publish, somebody can go on. -/
  moves : ∀ w ∈ h.race.writers, w.pending ≠ [] → ∃ i, (h.race.step i).isSome

/-! ### What a publication has reached -/

namespace Stage

/-- The slot's previous writer is known to be done. -/
def hasSlot : Stage → Bool
  | beginning _ | copying _ | ending _ | awaitingTurn _ | revealing _ => true
  | _ => false

/-- The slot write began. -/
def hasBegun : Stage → Bool
  | copying _ | ending _ | awaitingTurn _ | revealing _ => true
  | _ => false

/-- The slot is written. -/
def hasWritten : Stage → Bool
  | awaitingTurn _ | revealing _ => true
  | _ => false

/-- Nothing is left to do. -/
def isDone : Stage → Bool
  | done _ => true
  | _ => false

/-- All earlier sequences are known to be visible. -/
def hasTurn : Stage → Bool
  | revealing _ => true
  | _ => false

theorem hasSlot_of_hasWritten {stage : Stage} (h : stage.hasWritten) : stage.hasSlot := by
  cases stage <;> first | rfl | cases h

theorem hasSlot_of_hasBegun {stage : Stage} (h : stage.hasBegun) : stage.hasSlot := by
  cases stage <;> first | rfl | cases h

theorem hasSlot_of_hasTurn {stage : Stage} (h : stage.hasTurn) : stage.hasSlot := by
  cases stage <;> first | rfl | cases h

theorem hasSlot_of_writing? {stage : Stage} {s : Nat} (h : stage.writing? = some s) :
    stage.hasSlot ∧ stage.sequence? = some s := by
  cases stage <;> first | exact ⟨rfl, h⟩ | cases h

end Stage

/-- What a publication of `encoded` under sequence `s` has achieved when it is at a stage. -/
structure History.Reached {g : Geometry} (h : History g) (s : Nat) (encoded : Bytes)
    (stage : Stage) : Prop where
  unfinished : stage.isDone = false
  slot : stage.hasSlot → s < h.race.ring.published + g.slotCount
  begun : stage.hasBegun → s ∈ h.begun
  copied : stage = .ending s → g.kept encoded <+: (h.race.ring.slotAt s).bytes
  written : stage.hasWritten → h.race.ring.Holds s encoded
  turn : stage.hasTurn → s ≤ h.race.ring.published

/-- A publication of `encoded` under sequence `s` is at a stage. -/
structure History.Call {g : Geometry} (h : History g) (s : Nat) (encoded : Bytes)
    (stage : Stage) : Prop extends h.Reached s encoded stage where
  published_le : h.race.ring.published ≤ s
  lt_claimed : s < h.race.ring.claimed
  handed : (s, encoded) ∈ h.handed

/-- **The invariant.** Every unfinished publication is where its stage says, no two have one
sequence, all sequences that are handed out and not visible are being published, and what is visible
is whole. -/
structure History.Inv {g : Geometry} (h : History g) : Prop where
  published_le : h.race.ring.published ≤ h.race.ring.claimed
  handed : h.handed.map Prod.fst = List.range h.race.ring.claimed
  calls : ∀ (i : Nat) (w : Writer) (s : Nat), h.race.writers[i]? = some w →
    w.stage.sequence? = some s →
      ∃ encoded rest, w.pending = encoded :: rest ∧ h.Call s encoded w.stage
  distinct : ∀ (i j : Nat) (v w : Writer) (s : Nat), h.race.writers[i]? = some v →
    h.race.writers[j]? = some w → v.stage.sequence? = some s → w.stage.sequence? = some s → i = j
  covered : ∀ s, h.race.ring.published ≤ s → s < h.race.ring.claimed →
    ∃ (i : Nat) (w : Writer), h.race.writers[i]? = some w ∧ w.stage.sequence? = some s
  begun : ∀ s < h.race.ring.published, s ∈ h.begun
  visible : ∀ s encoded, (s, encoded) ∈ h.handed → s < h.race.ring.published →
    s + g.slotCount ∉ h.begun → h.race.ring.Holds s encoded

/-! ### Moves -/

/-- A writer that made an access: at its next stage, or at its next record. -/
def Writer.reach (w : Writer) : Stage → Writer
  | .done _ => ⟨w.pending.tail, .claiming⟩
  | stage => { w with stage := stage }

namespace History

variable {g : Geometry} {h h' : History g}

/-- The history after writer number `i` made an access. -/
def move (h : History g) (i : Nat) (ring : Ring g) (w : Writer) (a : Access) : History g :=
  ⟨⟨ring, h.race.writers.set i w⟩, h.accesses ++ [a]⟩

theorem handed_move (h : History g) (i : Nat) (ring : Ring g) (w : Writer) (a : Access) :
    (h.move i ring w a).handed = h.handed ++ a.handed?.toList := by
  rw [move, handed, handed, List.filterMap_append, List.filterMap_cons]
  cases a.handed? <;> rfl

theorem begun_move (h : History g) (i : Nat) (ring : Ring g) (w : Writer) (a : Access) :
    (h.move i ring w a).begun = h.begun ++ a.begun?.toList := by
  rw [move, begun, begun, List.filterMap_append, List.filterMap_cons]
  cases a.begun? <;> rfl

theorem writers_move {i j : Nat} {w v u : Writer} {ring : Ring g} {a : Access}
    (here : h.race.writers[i]? = some w) (at_ : (h.move i ring v a).race.writers[j]? = some u) :
    j = i ∧ u = v ∨ j ≠ i ∧ h.race.writers[j]? = some u := by
  simp only [move] at at_
  by_cases same : i = j
  · subst same
    rw [List.getElem?_set_self (List.getElem?_eq_some_iff.1 here).1] at at_
    exact .inl ⟨rfl, (Option.some.inj at_).symm⟩
  · rw [List.getElem?_set_ne same] at at_
    exact .inr ⟨Ne.symm same, at_⟩

theorem writers_move_self {i : Nat} {w : Writer} (here : h.race.writers[i]? = some w)
    (ring : Ring g) (v : Writer) (a : Access) :
    (h.move i ring v a).race.writers[i]? = some v :=
  List.getElem?_set_self (List.getElem?_eq_some_iff.1 here).1

theorem writers_move_of_ne {i j : Nat} (ne : j ≠ i) (ring : Ring g) (v : Writer) (a : Access) :
    (h.move i ring v a).race.writers[j]? = h.race.writers[j]? :=
  List.getElem?_set_ne (Ne.symm ne)

/-- Whoever has a record and need not wait makes the access that its stage says. -/
theorem step_of_access {i : Nat} {w : Writer} {encoded : Bytes} {rest : List Bytes} {ring : Ring g}
    {stage : Stage} (here : h.race.writers[i]? = some w) (pending : w.pending = encoded :: rest)
    (access : h.race.ring.access encoded w.stage = some (ring, stage)) :
    h.race.step i = some ⟨ring, h.race.writers.set i (w.reach stage)⟩ := by
  have stepped : w.step h.race.ring = some (ring, w.reach stage) := by
    rw [Writer.step, pending]
    simp only [access]
    cases stage <;> simp only [Writer.reach, pending, List.tail_cons]
  rw [Race.step, here]
  simp only [stepped, Option.map_some]

/-- An event is a commit, an access that its stage allows, or nothing. -/
theorem next_cases (h : History g) (event : RaceEvent) :
    (∃ next, event = .commit next) ∨ h.next event = h ∨
      ∃ i w encoded rest ring stage, h.race.writers[i]? = some w ∧ w.pending = encoded :: rest ∧
        h.race.ring.access encoded w.stage = some (ring, stage) ∧
          h.next event = h.move i ring (w.reach stage) ⟨encoded, stage⟩ := by
  cases event with
  | commit next => exact .inl ⟨next, rfl⟩
  | access i =>
    right
    cases here : h.race.writers[i]? with
    | none => left; simp only [next, Race.step, here]
    | some w =>
      cases pending : w.pending with
      | nil => left; simp only [next, Race.step, here, Writer.step, pending, Option.map_none]
      | cons encoded rest =>
        cases access : h.race.ring.access encoded w.stage with
        | none =>
          left; simp only [next, Race.step, here, Writer.step, pending, access, Option.map_none]
        | some found =>
          obtain ⟨ring, stage⟩ := found
          right
          refine ⟨i, w, encoded, rest, ring, stage, here, pending, access, ?_⟩
          rw [next, step_of_access here pending access]
          simp only [here, Option.bind_some, Writer.access?, pending, access, Option.map_some,
            Option.toList_some, move]

theorem subset_handed_move (h : History g) (i : Nat) (ring : Ring g) (w : Writer) (a : Access) :
    h.handed ⊆ (h.move i ring w a).handed := by
  rw [handed_move]
  exact List.subset_append_left _ _

theorem subset_begun_move (h : History g) (i : Nat) (ring : Ring g) (w : Writer) (a : Access) :
    h.begun ⊆ (h.move i ring w a).begun := by
  rw [begun_move]
  exact List.subset_append_left _ _

/-! ### The invariant -/

/-- What others do leaves a publication alone as long as its sequence is not made visible and its
slot, once it is its own, is not touched. -/
theorem Call.mono {s : Nat} {encoded : Bytes} {stage : Stage} (call : h.Call s encoded stage)
    (invisible : h'.race.ring.published ≤ s)
    (published : h.race.ring.published ≤ h'.race.ring.published)
    (claimed : h.race.ring.claimed ≤ h'.race.ring.claimed) (handed : h.handed ⊆ h'.handed)
    (begun : h.begun ⊆ h'.begun)
    (untouched : stage.hasSlot → h'.race.ring.slotAt s = h.race.ring.slotAt s) :
    h'.Call s encoded stage where
  published_le := invisible
  lt_claimed := Nat.lt_of_lt_of_le call.lt_claimed claimed
  handed := handed call.handed
  unfinished := call.unfinished
  slot has := by
    have near := call.slot has
    omega
  begun has := begun (call.begun has)
  copied at_ := by
    rw [untouched (by rw [at_]; rfl)]
    exact call.copied at_
  written has := by
    rw [Ring.Holds, untouched (Stage.hasSlot_of_hasWritten has)]
    exact call.written has
  turn has := Nat.le_trans (call.turn has) published

section

variable {s : Nat} {encoded : Bytes} {stage : Stage}

/-! A publication on its way: before its slot is its own there is nothing to know. -/

theorem reached_early (unfinished : stage.isDone = false) (early : stage.hasSlot = false) :
    h.Reached s encoded stage := by
  have none : ¬ stage.hasSlot := by rw [early]; exact Bool.false_ne_true
  refine ⟨unfinished, fun has => absurd has none, ?_, ?_, ?_, ?_⟩
  · exact fun has => absurd (Stage.hasSlot_of_hasBegun has) none
  · exact fun at_ => absurd (by rw [at_]; rfl) none
  · exact fun has => absurd (Stage.hasSlot_of_hasWritten has) none
  · exact fun has => absurd (Stage.hasSlot_of_hasTurn has) none

theorem reached_beginning (near : s < h.race.ring.published + g.slotCount) :
    h.Reached s encoded (.beginning s) := by
  refine ⟨rfl, fun _ => near, ?_, ?_, ?_, ?_⟩ <;> intro has <;> cases has

theorem reached_copying (near : s < h.race.ring.published + g.slotCount) (began : s ∈ h.begun) :
    h.Reached s encoded (.copying s) := by
  refine ⟨rfl, fun _ => near, fun _ => began, ?_, ?_, ?_⟩ <;> intro has <;> cases has

theorem reached_ending (near : s < h.race.ring.published + g.slotCount) (began : s ∈ h.begun)
    (copied : g.kept encoded <+: (h.race.ring.slotAt s).bytes) :
    h.Reached s encoded (.ending s) := by
  refine ⟨rfl, fun _ => near, fun _ => began, fun _ => copied, ?_, ?_⟩ <;> intro has <;> cases has

theorem reached_awaitingTurn (near : s < h.race.ring.published + g.slotCount)
    (began : s ∈ h.begun) (written : h.race.ring.Holds s encoded) :
    h.Reached s encoded (.awaitingTurn s) := by
  refine ⟨rfl, fun _ => near, fun _ => began, ?_, fun _ => written, ?_⟩ <;> intro has <;> cases has

theorem reached_revealing (near : s < h.race.ring.published + g.slotCount)
    (began : s ∈ h.begun) (written : h.race.ring.Holds s encoded)
    (turn : s ≤ h.race.ring.published) : h.Reached s encoded (.revealing s) := by
  refine ⟨rfl, fun _ => near, fun _ => began, ?_, fun _ => written, fun _ => turn⟩
  intro has
  cases has

end

/-- A sequence is handed out with one record. -/
theorem Inv.encoded_eq (inv : h.Inv) {s : Nat} {a b : Bytes} (ha : (s, a) ∈ h.handed)
    (hb : (s, b) ∈ h.handed) : a = b := by
  have nodup : (h.handed.map Prod.fst).Nodup := by
    rw [inv.handed]
    exact List.nodup_range
  exact (Prod.mk.inj (List.inj_on_of_nodup_map nodup ha hb rfl)).2

theorem inv_start (g : Geometry) (lists : List (List Bytes)) : (start g lists).Inv := by
  have idle : ∀ (i : Nat) (w : Writer) (s : Nat), (start g lists).race.writers[i]? = some w →
      w.stage.sequence? ≠ some s := by
    intro i w s here some
    have member := List.mem_of_getElem? here
    rw [start, List.mem_map] at member
    obtain ⟨records, -, rfl⟩ := member
    cases some
  exact {
    published_le := Nat.le_refl _
    handed := rfl
    calls := fun i w s here some => absurd some (idle i w s here)
    distinct := fun i j v w s here _ some _ => absurd some (idle i v s here)
    covered := fun s _ lt => absurd lt (Nat.not_lt_zero s)
    begun := fun s lt => absurd lt (Nat.not_lt_zero s)
    visible := fun s _ _ lt => absurd lt (Nat.not_lt_zero s) }

theorem Inv.commit (inv : h.Inv) (next : Nat) : (h.next (.commit next)).Inv where
  published_le := inv.published_le
  handed := inv.handed
  calls i w s here some := by
    obtain ⟨encoded, rest, pending, call⟩ := inv.calls i w s here some
    exact ⟨encoded, rest, pending, call.mono call.published_le (Nat.le_refl _) (Nat.le_refl _)
      (List.Subset.refl _) (List.Subset.refl _) fun _ => rfl⟩
  distinct := inv.distinct
  covered := inv.covered
  begun := inv.begun
  visible := inv.visible

theorem Inv.claim (inv : h.Inv) {i : Nat} {w : Writer} {encoded : Bytes} {rest : List Bytes}
    (here : h.race.writers[i]? = some w) (pending : w.pending = encoded :: rest)
    (claiming : w.stage = .claiming) :
    (h.move i h.race.ring.claim { w with stage := .checking h.race.ring.claimed }
      ⟨encoded, .checking h.race.ring.claimed⟩).Inv := by
  have handed : (h.move i h.race.ring.claim { w with stage := .checking h.race.ring.claimed }
      ⟨encoded, .checking h.race.ring.claimed⟩).handed =
        h.handed ++ [(h.race.ring.claimed, encoded)] := handed_move _ _ _ _ _
  have begun : (h.move i h.race.ring.claim { w with stage := .checking h.race.ring.claimed }
      ⟨encoded, .checking h.race.ring.claimed⟩).begun = h.begun := by
    rw [begun_move]; exact List.append_nil _
  have idle : ∀ s, w.stage.sequence? ≠ some s := by
    intro s some
    rw [claiming] at some
    cases some
  refine ⟨Nat.le_succ_of_le inv.published_le, ?_, ?_, ?_, ?_, ?_, ?_⟩
  · rw [handed, List.map_append, inv.handed]
    exact List.range_succ.symm
  · intro j u s at_ some
    obtain ⟨rfl, rfl⟩ | ⟨-, there⟩ := writers_move here at_
    · cases some
      refine ⟨encoded, rest, pending, ?_⟩
      have mine : (h.race.ring.claimed, encoded) ∈ h.handed ++ [(h.race.ring.claimed, encoded)] :=
        List.mem_append_right _ List.mem_cons_self
      exact ⟨reached_early rfl rfl, inv.published_le, Nat.lt_succ_self _,
        handed ▸ mine⟩
    · obtain ⟨e, more, waiting, call⟩ := inv.calls j u s there some
      exact ⟨e, more, waiting, call.mono call.published_le (Nat.le_refl _) (Nat.le_succ _)
        (subset_handed_move _ _ _ _ _) (subset_begun_move _ _ _ _ _) fun _ => rfl⟩
  · -- the new sequence is above all that are in use
    have fresh : ∀ (j : Nat) (u : Writer), h.race.writers[j]? = some u →
        u.stage.sequence? ≠ some h.race.ring.claimed := by
      intro j u there some
      obtain ⟨_, _, _, call⟩ := inv.calls j u _ there some
      exact Nat.lt_irrefl _ call.lt_claimed
    intro j k u v s atj atk somej somek
    obtain ⟨rfl, rfl⟩ | ⟨-, therej⟩ := writers_move here atj
    · obtain ⟨rfl, -⟩ | ⟨-, therek⟩ := writers_move here atk
      · rfl
      · cases somej
        exact absurd somek (fresh k v therek)
    · obtain ⟨rfl, rfl⟩ | ⟨-, therek⟩ := writers_move here atk
      · cases somek
        exact absurd somej (fresh j u therej)
      · exact inv.distinct j k u v s therej therek somej somek
  · intro s lower upper
    by_cases new : s = h.race.ring.claimed
    · subst new
      exact ⟨i, _, writers_move_self here _ _ _, rfl⟩
    · obtain ⟨j, u, there, some⟩ := inv.covered s lower
        (Nat.lt_of_le_of_ne (Nat.le_of_lt_succ upper) new)
      have other : j ≠ i := by
        rintro rfl
        rw [here] at there
        cases there
        exact idle s some
      exact ⟨j, u, (writers_move_of_ne other _ _ _).trans there, some⟩
  · rw [begun]
    exact inv.begun
  · intro s e mem lt free
    rw [handed, List.mem_append] at mem
    rw [begun] at free
    obtain old | new := mem
    · exact inv.visible s e old lt free
    · cases List.mem_singleton.1 new
      exact absurd inv.published_le (Nat.not_le_of_lt lt)

/-- Between a claim and the last access a publication keeps its sequence `s` and moves no cursor of
the writers. It touches a slot only once that is its own, and the write is known to have begun. -/
theorem Inv.advance (inv : h.Inv) {i s : Nat} {w : Writer} {encoded : Bytes} {rest : List Bytes}
    {ring : Ring g} {stage : Stage} (here : h.race.writers[i]? = some w)
    (pending : w.pending = encoded :: rest) (before : w.stage.sequence? = some s)
    (after : stage.sequence? = some s) (published : ring.published = h.race.ring.published)
    (claimed : ring.claimed = h.race.ring.claimed)
    (old : (⟨encoded, stage⟩ : Access).handed? = none)
    (touched : ∀ t, ring.slotAt t = h.race.ring.slotAt t ∨ g.index s = g.index t ∧
      s < h.race.ring.published + g.slotCount ∧
        s ∈ (h.move i ring { w with stage := stage } ⟨encoded, stage⟩).begun)
    (reached : (h.move i ring { w with stage := stage } ⟨encoded, stage⟩).Reached s encoded
      stage) :
    (h.move i ring { w with stage := stage } ⟨encoded, stage⟩).Inv := by
  have handed : (h.move i ring { w with stage := stage } ⟨encoded, stage⟩).handed = h.handed := by
    rw [handed_move, old]
    exact List.append_nil _
  have begun := subset_begun_move h i ring { w with stage := stage } ⟨encoded, stage⟩
  obtain ⟨lower, upper, mine⟩ : h.race.ring.published ≤ s ∧ s < h.race.ring.claimed ∧
      (s, encoded) ∈ h.handed := by
    obtain ⟨_, _, pending', call⟩ := inv.calls i w s here before
    cases pending.symm.trans pending'
    exact ⟨call.published_le, call.lt_claimed, call.handed⟩
  refine ⟨?_, ?_, ?_, ?_, ?_, ?_, ?_⟩
  · show ring.published ≤ ring.claimed
    rw [published, claimed]
    exact inv.published_le
  · rw [handed, inv.handed, ← claimed]
    rfl
  · intro j u t at_ some
    obtain ⟨rfl, rfl⟩ | ⟨other, there⟩ := writers_move here at_
    · cases after.symm.trans some
      exact ⟨encoded, rest, pending, reached, Nat.le_trans (Nat.le_of_eq published) lower,
        Nat.lt_of_lt_of_eq upper claimed.symm, handed ▸ mine⟩
    · obtain ⟨e, more, waiting, theirs⟩ := inv.calls j u t there some
      refine ⟨e, more, waiting, theirs.mono ?_ (Nat.le_of_eq published.symm)
        (Nat.le_of_eq claimed.symm) (subset_handed_move _ _ _ _ _) begun ?_⟩
      · show ring.published ≤ t
        rw [published]
        exact theirs.published_le
      · -- both slots are taken within one round
        intro has
        obtain same | ⟨index, near, -⟩ := touched t
        · exact same
        · have ne : s ≠ t := fun eq => other (inv.distinct j i u w t there here some (eq ▸ before))
          have above := theirs.published_le
          have below := theirs.slot has
          rcases Nat.lt_or_gt_of_ne ne with lt | gt
          · exact absurd index (g.index_ne lt (by omega))
          · exact absurd index.symm (g.index_ne gt (by omega))
  · intro j k u v t atj atk somej somek
    obtain ⟨rfl, rfl⟩ | ⟨otherj, therej⟩ := writers_move here atj
    · obtain ⟨rfl, -⟩ | ⟨otherk, therek⟩ := writers_move here atk
      · rfl
      · cases after.symm.trans somej
        exact inv.distinct j k w v s here therek before somek
    · obtain ⟨rfl, rfl⟩ | ⟨otherk, therek⟩ := writers_move here atk
      · cases after.symm.trans somek
        exact inv.distinct j k u w s therej here somej before
      · exact inv.distinct j k u v t therej therek somej somek
  · intro t above below
    obtain ⟨j, u, there, some⟩ := inv.covered t (published ▸ above) (claimed ▸ below)
    by_cases same : j = i
    · subst same
      cases here.symm.trans there
      cases before.symm.trans some
      exact ⟨j, _, writers_move_self here _ _ _, after⟩
    · exact ⟨j, u, (writers_move_of_ne same _ _ _).trans there, some⟩
  · intro t lt
    exact begun (inv.begun t (published ▸ lt))
  · -- a visible record lies in a slot that is not touched before its next writer begins
    intro t e mem lt free
    rw [handed] at mem
    have visible : t < h.race.ring.published := published ▸ lt
    have held := inv.visible t e mem visible fun next => free (begun next)
    obtain same | ⟨index, near, began⟩ := touched t
    · rw [Ring.Holds] at held ⊢
      rw [← same] at held
      exact held
    · exfalso
      rcases Nat.lt_trichotomy s (t + g.slotCount) with short | eq | long
      · exact g.index_ne (by omega : t < s) short index.symm
      · exact free (eq ▸ began)
      · by_cases round : s < t + g.slotCount + g.slotCount
        · exact g.index_ne long round (by rw [g.index_add_slotCount, index])
        · exact free (begun (inv.begun _ (by omega)))

theorem Inv.reveal (inv : h.Inv) {i s : Nat} {w : Writer} {encoded : Bytes} {rest : List Bytes}
    (here : h.race.writers[i]? = some w) (pending : w.pending = encoded :: rest)
    (revealing : w.stage = .revealing s) :
    (h.move i (h.race.ring.reveal s) ⟨rest, .claiming⟩ ⟨encoded, .done s⟩).Inv := by
  have before : w.stage.sequence? = some s := by rw [revealing]; rfl
  obtain ⟨encoded', rest', pending', call⟩ := inv.calls i w s here before
  cases pending.symm.trans pending'
  rw [revealing] at call
  have turn : s = h.race.ring.published := Nat.le_antisymm (call.turn rfl) call.published_le
  have handed : (h.move i (h.race.ring.reveal s) ⟨rest, .claiming⟩ ⟨encoded, .done s⟩).handed =
      h.handed := by
    rw [handed_move]; exact List.append_nil _
  have begun : (h.move i (h.race.ring.reveal s) ⟨rest, .claiming⟩ ⟨encoded, .done s⟩).begun =
      h.begun := by
    rw [begun_move]; exact List.append_nil _
  refine ⟨call.lt_claimed, ?_, ?_, ?_, ?_, ?_, ?_⟩
  · rw [handed, inv.handed]
    rfl
  · intro j u t at_ some
    obtain ⟨rfl, rfl⟩ | ⟨other, there⟩ := writers_move here at_
    · cases some
    · obtain ⟨e, more, waiting, theirs⟩ := inv.calls j u t there some
      have ne : s ≠ t := fun eq => other (inv.distinct j i u w t there here some (eq ▸ before))
      have above := theirs.published_le
      refine ⟨e, more, waiting, theirs.mono ?_ ?_ (Nat.le_refl _) (subset_handed_move _ _ _ _ _)
        (subset_begun_move _ _ _ _ _) fun _ => rfl⟩
      · show s + 1 ≤ t
        omega
      · show h.race.ring.published ≤ s + 1
        omega
  · intro j k u v t atj atk somej somek
    obtain ⟨-, rfl⟩ | ⟨otherj, therej⟩ := writers_move here atj
    · cases somej
    · obtain ⟨-, rfl⟩ | ⟨otherk, therek⟩ := writers_move here atk
      · cases somek
      · exact inv.distinct j k u v t therej therek somej somek
  · intro t above below
    have above : s + 1 ≤ t := above
    obtain ⟨j, u, there, some⟩ := inv.covered t (by omega) below
    have other : j ≠ i := by
      rintro rfl
      cases here.symm.trans there
      cases before.symm.trans some
      omega
    exact ⟨j, u, (writers_move_of_ne other _ _ _).trans there, some⟩
  · intro t lt
    have lt : t < s + 1 := lt
    rw [begun]
    by_cases last : t = s
    · exact last ▸ call.begun rfl
    · exact inv.begun t (by omega)
  · intro t e mem lt free
    have lt : t < s + 1 := lt
    rw [handed] at mem
    rw [begun] at free
    by_cases last : t = s
    · subst last
      cases inv.encoded_eq mem call.handed
      exact call.written rfl
    · exact inv.visible t e mem (by omega) free

theorem touched_of_mapSlot {ring : Ring g} {s bound : Nat} {f : Slot g → Slot g} {begun : List Nat}
    (near : s < bound) (began : s ∈ begun) (t : Nat) :
    (ring.mapSlot s f).slotAt t = ring.slotAt t ∨
      g.index s = g.index t ∧ s < bound ∧ s ∈ begun := by
  by_cases same : g.index s = g.index t
  · exact .inr ⟨same, near, began⟩
  · exact .inl (by rw [Ring.slotAt_mapSlot, if_neg same])

/-- **One access keeps the invariant.** -/
theorem inv_next (inv : h.Inv) (event : RaceEvent) : (h.next event).Inv := by
  rcases next_cases h event with ⟨next, rfl⟩ | same |
    ⟨i, w, encoded, rest, ring, stage, here, pending, access, moved⟩
  · exact inv.commit next
  · rw [same]
    exact inv
  rw [moved]
  -- what is known of the writer before its access
  have known : ∀ s, w.stage.sequence? = some s → h.Call s encoded w.stage := by
    intro s some
    obtain ⟨_, _, pending', call⟩ := inv.calls i w s here some
    cases pending.symm.trans pending'
    exact call
  cases at_ : w.stage with
  | claiming =>
    rw [at_, Ring.access] at access
    cases access
    exact inv.claim here pending at_
  | checking s =>
    rw [at_, Ring.access] at access
    cases access
    have before : w.stage.sequence? = some s := by rw [at_]; rfl
    by_cases full : h.race.ring.IsFullFor s
    · rw [if_pos full]
      exact inv.advance here pending before rfl rfl rfl rfl (fun _ => .inl rfl)
        (reached_early rfl rfl)
    · rw [if_neg full]
      exact inv.advance here pending before rfl rfl rfl rfl (fun _ => .inl rfl)
        (reached_early rfl rfl)
  | givingUp s =>
    rw [at_, Ring.access] at access
    cases access
    exact inv.advance here pending (by rw [at_]; rfl) rfl rfl rfl rfl (fun _ => .inl rfl)
      (reached_early rfl rfl)
  | counting s =>
    rw [at_, Ring.access] at access
    cases access
    exact inv.advance here pending (by rw [at_]; rfl) rfl rfl rfl rfl (fun _ => .inl rfl)
      (reached_early rfl rfl)
  | awaitingSlot s =>
    rw [at_, Ring.access] at access
    split at access
    · next free =>
      cases access
      -- the slot's previous writer is done
      have near : s < h.race.ring.published + g.slotCount := by
        rw [Ring.slotFreeAt] at free
        omega
      exact inv.advance here pending (by rw [at_]; rfl) rfl rfl rfl rfl (fun _ => .inl rfl)
        (reached_beginning near)
    · cases access
  | beginning s =>
    rw [at_, Ring.access] at access
    cases access
    have call := known s (by rw [at_]; rfl)
    rw [at_] at call
    have began : s ∈ (h.move i (h.race.ring.beginWrite s) { w with stage := .copying s }
        ⟨encoded, .copying s⟩).begun := by
      rw [begun_move]
      exact List.mem_append_right _ List.mem_cons_self
    exact inv.advance here pending (by rw [at_]; rfl) rfl rfl rfl rfl
      (touched_of_mapSlot (call.slot rfl) began)
      (reached_copying (call.slot rfl) began)
  | copying s =>
    rw [at_, Ring.access] at access
    cases access
    have call := known s (by rw [at_]; rfl)
    rw [at_] at call
    have began := subset_begun_move h i (h.race.ring.copyIn s encoded)
      { w with stage := .ending s } ⟨encoded, .ending s⟩ (call.begun rfl)
    have copied : g.kept encoded <+: ((h.race.ring.copyIn s encoded).slotAt s).bytes := by
      rw [Ring.copyIn, Ring.slotAt_mapSlot, if_pos rfl]
      exact Ring.kept_prefix_copy _ encoded
    exact inv.advance here pending (by rw [at_]; rfl) rfl rfl rfl rfl
      (touched_of_mapSlot (call.slot rfl) began)
      (reached_ending (call.slot rfl) began copied)
  | ending s =>
    rw [at_, Ring.access] at access
    cases access
    have call := known s (by rw [at_]; rfl)
    rw [at_] at call
    have began := subset_begun_move h i (h.race.ring.endWrite s)
      { w with stage := .awaitingTurn s } ⟨encoded, .awaitingTurn s⟩ (call.begun rfl)
    have written : (h.race.ring.endWrite s).Holds s encoded := by
      rw [Ring.Holds, Ring.endWrite, Ring.slotAt_mapSlot, if_pos rfl]
      exact ⟨rfl, call.copied rfl⟩
    exact inv.advance here pending (by rw [at_]; rfl) rfl rfl rfl rfl
      (touched_of_mapSlot (call.slot rfl) began)
      (reached_awaitingTurn (call.slot rfl) began written)
  | awaitingTurn s =>
    rw [at_, Ring.access] at access
    have call := known s (by rw [at_]; rfl)
    rw [at_] at call
    split at access
    · next turn =>
      cases access
      exact inv.advance here pending (by rw [at_]; rfl) rfl rfl rfl rfl (fun _ => .inl rfl)
        (reached_revealing (call.slot rfl) (subset_begun_move _ _ _ _ _ (call.begun rfl))
          (call.written rfl) turn)
    · cases access
  | revealing s =>
    rw [at_, Ring.access] at access
    cases access
    rw [Writer.reach, pending, List.tail_cons]
    exact inv.reveal here pending at_
  | done s =>
    rw [at_, Ring.access] at access
    cases access

theorem inv_run (inv : h.Inv) (events : List RaceEvent) : (h.run events).Inv := by
  induction events generalizing h with
  | nil => exact inv
  | cons event rest ih => exact ih (inv_next inv event)

/-! ### Going on -/

/-- A publication is held up by one of the two waits only. -/
theorem access_isSome {ring : Ring g} {encoded : Bytes} {stage : Stage} {s : Nat}
    (unfinished : stage.isDone = false) (sequence : stage.sequence? = some s)
    (first : s ≤ ring.published) : (ring.access encoded stage).isSome := by
  have pos := g.slotCount_pos
  cases stage with
  | claiming => cases sequence
  | awaitingSlot t =>
    cases sequence
    rw [Ring.access, if_pos (by rw [Ring.slotFreeAt]; omega)]
    rfl
  | awaitingTurn t =>
    cases sequence
    rw [Ring.access, if_pos first]
    rfl
  | done t => cases unfinished
  | _ => rfl

/-- If a publication is under way then so is that of the first sequence that is not visible, and
nothing holds it up. -/
theorem Inv.call_moves (inv : h.Inv) {w : Writer} (member : w ∈ h.race.writers) (busy : w.InCall) :
    ∃ (i : Nat) (v : Writer), h.race.writers[i]? = some v ∧ v.InCall ∧ (h.race.step i).isSome := by
  obtain ⟨j, at_⟩ := List.mem_iff_getElem?.1 member
  obtain ⟨s, some⟩ := Option.ne_none_iff_exists'.1 busy
  obtain ⟨_, _, _, call⟩ := inv.calls j w s at_ some
  obtain ⟨i, v, here, first⟩ := inv.covered h.race.ring.published (Nat.le_refl _)
    (Nat.lt_of_le_of_lt call.published_le call.lt_claimed)
  obtain ⟨encoded, rest, pending, theirs⟩ := inv.calls i v _ here first
  have free : (h.race.ring.access encoded v.stage).isSome :=
    access_isSome theirs.unfinished first (Nat.le_refl _)
  obtain ⟨⟨ring, stage⟩, access⟩ := Option.isSome_iff_exists.1 free
  refine ⟨i, v, here, ?_, ?_⟩
  · rw [Writer.InCall, first]
    exact Option.some_ne_none _
  · rw [step_of_access here pending access]
    rfl

/-- A writer between two publications can claim its next sequence. -/
theorem Inv.moves (inv : h.Inv) {w : Writer} (member : w ∈ h.race.writers)
    (left : w.pending ≠ []) : ∃ i, (h.race.step i).isSome := by
  by_cases busy : w.InCall
  · obtain ⟨i, _, _, _, moves⟩ := inv.call_moves member busy
    exact ⟨i, moves⟩
  · obtain ⟨i, here⟩ := List.mem_iff_getElem?.1 member
    obtain ⟨encoded, rest, pending⟩ := List.exists_cons_of_ne_nil left
    have idle : w.stage = .claiming := by
      rw [Writer.InCall, not_not] at busy
      cases at_ : w.stage with
      | claiming => rfl
      | _ => rw [at_] at busy; cases busy
    refine ⟨i, ?_⟩
    rw [step_of_access here pending (by rw [idle]; rfl)]
    rfl

/-- An access makes at most the next sequence visible. -/
theorem Inv.published_next (inv : h.Inv) (event : RaceEvent) :
    (h.next event).race.ring.published = h.race.ring.published ∨
      (h.next event).race.ring.published = h.race.ring.published + 1 := by
  rcases next_cases h event with ⟨next, rfl⟩ | same |
    ⟨i, w, encoded, rest, ring, stage, here, pending, access, moved⟩
  · exact .inl rfl
  · exact .inl (by rw [same])
  rw [moved]
  show ring.published = _ ∨ ring.published = _
  cases at_ : w.stage with
  | revealing s =>
    obtain ⟨_, _, _, call⟩ := inv.calls i w s here (by rw [at_]; rfl)
    rw [at_] at call access
    cases access
    have turn := Nat.le_antisymm (call.turn rfl) call.published_le
    exact .inr (congrArg (· + 1) turn)
  | awaitingSlot s | awaitingTurn s =>
    rw [at_, Ring.access] at access
    split at access
    · cases access
      exact .inl rfl
    · cases access
  | done s =>
    rw [at_, Ring.access] at access
    cases access
  | _ =>
    rw [at_, Ring.access] at access
    cases access
    exact .inl rfl

theorem Inv.exclusive (inv : h.Inv) {i j s t : Nat} {v w : Writer} (ne : i ≠ j)
    (atv : h.race.writers[i]? = some v) (atw : h.race.writers[j]? = some w)
    (writingv : v.stage.writing? = some s) (writingw : w.stage.writing? = some t) :
    g.index s ≠ g.index t := by
  obtain ⟨slotv, somev⟩ := Stage.hasSlot_of_writing? writingv
  obtain ⟨slotw, somew⟩ := Stage.hasSlot_of_writing? writingw
  obtain ⟨_, _, _, callv⟩ := inv.calls i v s atv somev
  obtain ⟨_, _, _, callw⟩ := inv.calls j w t atw somew
  -- all writers that have their slot are within one round
  have nearv := callv.slot slotv
  have nearw := callw.slot slotw
  have abovev := callv.published_le
  have abovew := callw.published_le
  rcases Nat.lt_trichotomy s t with lt | eq | gt
  · exact g.index_ne lt (by omega)
  · exact absurd (inv.distinct i j v w s atv atw somev (eq ▸ somew)) ne
  · exact (g.index_ne gt (by omega)).symm

theorem Inv.safe (inv : h.Inv) : h.Safe where
  exclusive _ _ _ _ _ _ := inv.exclusive
  published_le := inv.published_le
  published_next := inv.published_next
  handed := inv.handed
  visible := inv.visible
  call_moves _ := inv.call_moves
  moves _ := inv.moves

/-- **Writers keep out of each other's way.** However many threads publish whatever records into one
ring, in whatever order they make their accesses and whatever the reader commits between them: no
slot is written by two at a time, sequences are handed out once and become visible one by one, a
visible record is whole until the next writer of its slot begins, and nobody is stuck. -/
theorem safe_run (g : Geometry) (lists : List (List Bytes)) (events : List RaceEvent) :
    ((start g lists).run events).Safe :=
  (inv_run (inv_start g lists) events).safe

end History

end LogRelay
