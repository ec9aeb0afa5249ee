/-
# Failures that are reported and failures that are not

A throttle emits a notice for the first failure, and for a later one exactly if an interval has
passed since the last notice. So two notices are never closer than the interval, and none that is
due is held back. No failure is lost either: each one is named by a notice, counted in the next
notice, or still waiting to be counted in one.

Between two reports a throttle knows when it emitted last and how many failures went unreported
since then (`Throttle.Since`); everything else follows from what one report makes of that. Clock
readings are moved up by one inside a throttle, so they have to stay below the greatest 64-bit word.
The counts are natural numbers here; words of 64 bits do not wrap before as many failures.

Key definitions: `Incident`, `Reported`, `Throttle.lines`, `Throttle.after`, `Throttle.Since`,
`Throttled`.
Key theorems: `Throttle.Since.isDue_iff`, `Throttle.Since.after_quiet`,
`Throttle.shares_add_suppressed`, `Throttle.throttled_lines`.
-/
import LogRelay.Throttle

namespace LogRelay

/-! ### Notices of failures -/

namespace Notice

/-- The number in a field of a notice, zero if there is no such field. -/
def number (n : Notice) (name : String) : Nat :=
  match n.fields.lookup name with
  | some (.number k) => k
  | some (.text _) | none => 0

/-- The text in a field of a notice. -/
def text? (n : Notice) (name : String) : Option String :=
  match n.fields.lookup name with
  | some (.text s) => some s
  | some (.number _) | none => none

/-- The notice says that failures went unreported before. -/
def IsRateLimited (n : Notice) : Prop := n.message = "logger failure (rate-limited)"

variable (source reason : String) (suppressed total : Nat)

theorem number_suppressed :
    (failure source reason suppressed total).number "suppressed_count" = suppressed := by
  by_cases none : suppressed = 0 <;> simp [number, fields, none, List.lookup_cons]

theorem number_total : (failure source reason suppressed total).number "total" = total := by
  by_cases none : suppressed = 0 <;> simp [number, fields, none, List.lookup_cons]

theorem text?_error : (failure source reason suppressed total).text? "error" = some reason := by
  simp [text?, fields, List.lookup_cons]

theorem isRateLimited_iff :
    (failure source reason suppressed total).IsRateLimited ↔ suppressed ≠ 0 := by
  cases suppressed <;> simp [IsRateLimited, message]

end Notice

/-! ### Runs of a throttle -/

/-- A failure: when it happens, in nanoseconds, and why. -/
structure Incident where
  now : Nat
  reason : String

/-- A failure that was reported, with the notice that was emitted for it, if one was. -/
structure Reported where
  incident : Incident
  notice : Option Notice

namespace Reported

/-- A notice was emitted. -/
def Emits (l : Reported) : Prop := l.notice.isSome = true

/-- How many failures a line accounts for: its own and those that its notice counts. -/
def share (l : Reported) : Nat :=
  l.notice.elim 0 fun n => 1 + n.number "suppressed_count"

/-- How many failures some lines account for. -/
def shares : List Reported → Nat
  | [] => 0
  | l :: rest => l.share + shares rest

end Reported

namespace Throttle

/-- The throttle after some failures. -/
def after (t : Throttle) (incidents : List Incident) : Throttle :=
  incidents.foldl (fun t i => (t.report i.now i.reason).2) t

/-- What comes of each of some failures. -/
def lines (t : Throttle) : List Incident → List Reported
  | [] => []
  | i :: rest => ⟨i, (t.report i.now i.reason).1⟩ :: (t.report i.now i.reason).2.lines rest

variable {t : Throttle} {i : Incident} {incidents : List Incident}

theorem report_of_due (due : t.isDue i.now = true) : t.report i.now i.reason =
    (some (.failure t.source i.reason t.suppressed (t.total + 1)),
      { t with emitted := moment i.now, suppressed := 0, total := t.total + 1 }) := by
  rw [report, if_pos due]

theorem report_of_not_due (early : t.isDue i.now = false) : t.report i.now i.reason =
    (none, { t with suppressed := t.suppressed + 1, total := t.total + 1 }) := by
  rw [report, early, if_neg Bool.false_ne_true]

/-- A notice is emitted exactly if one is due, and it says how many were not. -/
theorem report_fst (t : Throttle) (i : Incident) :
    (t.report i.now i.reason).1 =
      if t.isDue i.now then some (.failure t.source i.reason t.suppressed (t.total + 1))
      else none := by
  unfold report
  split <;> rfl

theorem report_spares (t : Throttle) (i : Incident) :
    (t.report i.now i.reason).2.source = t.source ∧
      (t.report i.now i.reason).2.interval = t.interval := by
  unfold report
  split <;> exact ⟨rfl, rfl⟩

theorem after_spares (t : Throttle) (incidents : List Incident) :
    (t.after incidents).source = t.source ∧ (t.after incidents).interval = t.interval ∧
      (t.after incidents).total = t.total + incidents.length := by
  induction incidents generalizing t with
  | nil => exact ⟨rfl, rfl, rfl⟩
  | cons i rest ih =>
    obtain ⟨source, interval⟩ := t.report_spares i
    obtain ⟨source', interval', total'⟩ := ih (t.report i.now i.reason).2
    refine ⟨source'.trans source, interval'.trans interval, total'.trans ?_⟩
    rw [total_report, List.length_cons]
    omega

theorem map_incident_lines (t : Throttle) (incidents : List Incident) :
    (t.lines incidents).map Reported.incident = incidents := by
  induction incidents generalizing t with
  | nil => rfl
  | cons i rest ih => rw [lines, List.map_cons, ih]

theorem length_lines (t : Throttle) (incidents : List Incident) :
    (t.lines incidents).length = incidents.length := by
  rw [← List.length_map Reported.incident, map_incident_lines]

theorem exists_of_lines_eq_append {front back : List Reported}
    (split : t.lines incidents = front ++ back) :
    ∃ early late, incidents = early ++ late ∧ t.lines early = front ∧
      (t.after early).lines late = back := by
  induction front generalizing t incidents with
  | nil => exact ⟨[], incidents, rfl, rfl, split⟩
  | cons l front ih =>
    cases incidents with
    | nil => cases split
    | cons i rest =>
      obtain ⟨rfl, tail⟩ := List.cons_eq_cons.1 split
      obtain ⟨early, late, rfl, fronts, backs⟩ := ih tail
      exact ⟨i :: early, late, rfl, by rw [lines, fronts], backs⟩

theorem after_append (t : Throttle) (incidents more : List Incident) :
    t.after (incidents ++ more) = (t.after incidents).after more :=
  List.foldl_append

/-- A failure is named by the notice that is emitted for it, or it waits for the next one. -/
theorem share_add_suppressed (t : Throttle) (i : Incident) :
    Reported.share ⟨i, (t.report i.now i.reason).1⟩ + (t.report i.now i.reason).2.suppressed =
      t.suppressed + 1 := by
  cases due : t.isDue i.now with
  | true =>
    rw [report_of_due due]
    simp only [Reported.share, Option.elim, Notice.number_suppressed]
    omega
  | false =>
    rw [report_of_not_due due]
    exact Nat.zero_add _

/-- **No failure is lost.** -/
theorem shares_add_suppressed (t : Throttle) (incidents : List Incident) :
    Reported.shares (t.lines incidents) + (t.after incidents).suppressed =
      t.suppressed + incidents.length := by
  induction incidents generalizing t with
  | nil => exact Nat.zero_add _
  | cons i rest ih =>
    have first := t.share_add_suppressed i
    have others := ih (t.report i.now i.reason).2
    calc Reported.shares (t.lines (i :: rest)) + (t.after (i :: rest)).suppressed
        = Reported.share ⟨i, (t.report i.now i.reason).1⟩ +
            (Reported.shares ((t.report i.now i.reason).2.lines rest) +
              ((t.report i.now i.reason).2.after rest).suppressed) := by
          rw [← Nat.add_assoc]
          rfl
      _ = t.suppressed + (i :: rest).length := by
          rw [others, List.length_cons]
          omega

/-! ### Since the last notice -/

/-- The last notice was emitted when the clock read `last`, and `quiet` failures went unreported
since then. -/
structure Since (t : Throttle) (last quiet : Nat) : Prop where
  emitted_eq : t.emitted = last + 1
  suppressed_eq : t.suppressed = quiet

theorem emits_iff {l : Reported}
    (noticed : l.notice = (t.report l.incident.now l.incident.reason).1) :
    l.Emits ↔ t.isDue l.incident.now = true := by
  rw [Reported.Emits, noticed, report_fst]
  cases t.isDue l.incident.now <;> simp

theorem since_of_due (due : t.isDue i.now = true) (below : i.now < wordMax) :
    (t.report i.now i.reason).2.Since i.now 0 := by
  rw [report_of_due due]
  refine ⟨?_, rfl⟩
  show min (i.now + 1) wordMax = i.now + 1
  omega

/-- Where a line with a notice ends some lines, the throttle begins to count anew. -/
theorem since_of_emits {early : List Incident} {front : List Reported} {l : Reported}
    (last : t.lines early = front ++ [l]) (emits : l.Emits) (below : ∀ i ∈ early, i.now < wordMax) :
    (t.after early).Since l.incident.now 0 := by
  obtain ⟨before, here, rfl, -, one⟩ := exists_of_lines_eq_append last
  cases here with
  | nil => cases one
  | cons i none =>
    obtain ⟨rfl, none_eq⟩ := List.cons_eq_cons.1 one
    cases none with
    | cons j more => cases none_eq
    | nil =>
      rw [after_append]
      exact since_of_due ((emits_iff rfl).1 emits) (below i (by simp))

namespace Since

variable {last quiet : Nat}

/-- **A failure is reported exactly if an interval has passed** since the last notice. -/
theorem isDue_iff (since : t.Since last quiet) {now : Nat} (later : last ≤ now)
    (below : now < wordMax) : t.isDue now = true ↔ last + t.interval ≤ now := by
  rw [isDue, decide_eq_true_eq, moment, since.emitted_eq]
  omega

theorem after_quiet (since : t.Since last quiet)
    (silent : ∀ l ∈ t.lines incidents, ¬ l.Emits) :
    (t.after incidents).Since last (quiet + incidents.length) := by
  induction incidents generalizing t quiet with
  | nil => exact since
  | cons i rest ih =>
    have early : t.isDue i.now = false := by
      have none := silent _ List.mem_cons_self
      rw [emits_iff rfl] at none
      simpa using none
    have counted : (t.report i.now i.reason).2.Since last (quiet + 1) := by
      rw [report_of_not_due early]
      exact ⟨since.emitted_eq, congrArg (· + 1) since.suppressed_eq⟩
    rw [List.length_cons, Nat.add_comm rest.length, ← Nat.add_assoc]
    exact ih counted fun l member => silent l (List.mem_cons_of_mem _ member)

end Since

theorem lt_emitted_after {moment₀ : Nat} (later : moment₀ < t.emitted)
    (within : ∀ i ∈ incidents, moment₀ ≤ i.now ∧ i.now < wordMax) :
    moment₀ < (t.after incidents).emitted := by
  induction incidents generalizing t with
  | nil => exact later
  | cons i rest ih =>
    refine ih ?_ fun j member => within j (List.mem_cons_of_mem _ member)
    obtain ⟨lower, below⟩ := within i List.mem_cons_self
    show moment₀ < (t.report i.now i.reason).2.emitted
    cases due : t.isDue i.now with
    | true =>
      rw [(since_of_due due below).emitted_eq]
      omega
    | false =>
      rw [report_of_not_due due]
      exact later

theorem add_interval_le_of_isDue {moment₀ now : Nat} (emitted : moment₀ < t.emitted)
    (later : moment₀ ≤ now) (due : t.isDue now = true) : moment₀ + t.interval ≤ now := by
  rw [isDue, decide_eq_true_eq, moment] at due
  omega

end Throttle

/-! ### What a throttle promises -/

/-- What became of some failures that were reported to a new throttle for `source`, whose `interval`
is in nanoseconds. -/
structure Throttled (source : String) (interval : Nat) (incidents : List Incident)
    (lines : List Reported) (t : Throttle) : Prop where
  incidents_eq : lines.map Reported.incident = incidents
  /-- The first failure is reported. -/
  first : ∀ l ∈ lines.head?, l.Emits
  /-- A later one is reported exactly if an interval has passed since the last notice. -/
  emits_iff : ∀ front l quiet l' rest, lines = front ++ [l] ++ quiet ++ l' :: rest → l.Emits →
    (∀ q ∈ quiet, ¬ q.Emits) → (l'.Emits ↔ l.incident.now + interval ≤ l'.incident.now)
  /-- Two notices are never closer than the interval. -/
  apart : ∀ front l between l' rest, lines = front ++ [l] ++ between ++ l' :: rest → l.Emits →
    l'.Emits → l.incident.now + interval ≤ l'.incident.now
  total_eq : t.total = incidents.length
  /-- Every failure has a notice, is counted in one, or is still held. -/
  balance : Reported.shares lines + t.suppressed = incidents.length
  /-- A notice says what failed and why, and bears the number of its failure. -/
  named : ∀ front l rest n, lines = front ++ l :: rest → n ∈ l.notice →
    n.text? "what" = some source ∧ n.text? "error" = some l.incident.reason ∧
      n.number "total" = front.length + 1
  /-- It counts the failures that went unreported since the last notice, and is of the rate-limited
  kind exactly if there are some. -/
  counted : ∀ front quiet l rest n, lines = front ++ quiet ++ l :: rest →
    (∀ last ∈ front.getLast?, last.Emits) → (∀ q ∈ quiet, ¬ q.Emits) → n ∈ l.notice →
      n.number "suppressed_count" = quiet.length ∧ (n.IsRateLimited ↔ quiet ≠ [])

namespace Throttle

variable {source : String} {interval : Duration} {incidents : List Incident}

theorem eq_failure_of_report {t : Throttle} {i : Incident} {n : Notice}
    (noticed : n ∈ (t.report i.now i.reason).1) :
    n = .failure t.source i.reason t.suppressed (t.total + 1) := by
  rw [report_fst] at noticed
  split at noticed
  · exact (Option.some.inj noticed).symm
  · cases noticed

theorem exists_of_lines_eq {t : Throttle} {front rest : List Reported} {l : Reported}
    (split : t.lines incidents = front ++ l :: rest) :
    ∃ early late, incidents = early ++ l.incident :: late ∧ t.lines early = front ∧
      l.notice = ((t.after early).report l.incident.now l.incident.reason).1 := by
  obtain ⟨early, late, rfl, fronts, back⟩ := exists_of_lines_eq_append split
  cases late with
  | nil => cases back
  | cons i late =>
    obtain ⟨rfl, -⟩ := List.cons_eq_cons.1 back
    exact ⟨early, late, rfl, fronts, rfl⟩

/-- Between a notice and a later line: the throttle after the one and the throttle before the
other, with the failures in between. -/
theorem exists_since {t : Throttle} (ordered : (incidents.map Incident.now).Pairwise (· ≤ ·))
    (below : ∀ i ∈ incidents, i.now < wordMax) {front between rest : List Reported}
    {l l' : Reported} (split : t.lines incidents = front ++ [l] ++ between ++ l' :: rest)
    (emits : l.Emits) :
    ∃ (t' : Throttle) (middle : List Incident), t'.Since l.incident.now 0 ∧
      t'.lines middle = between ∧ (t'.after middle).interval = t.interval ∧
      l'.notice = ((t'.after middle).report l'.incident.now l'.incident.reason).1 ∧
      l'.incident.now < wordMax ∧
      (∀ i ∈ middle, l.incident.now ≤ i.now ∧ i.now < wordMax) ∧
      l.incident.now ≤ l'.incident.now := by
  obtain ⟨early, late, rfl, fronts, noticed⟩ := exists_of_lines_eq split
  obtain ⟨before, middle, rfl, upto, after⟩ := exists_of_lines_eq_append fronts
  have here : l.incident ∈ before := by
    rw [← map_incident_lines t before, upto]
    simp
  have since := since_of_emits upto emits fun i member => below i (by simp [member])
  have spares := after_spares t (before ++ middle)
  simp only [List.map_append, List.map_cons, List.append_assoc, List.pairwise_append] at ordered
  rw [after_append] at noticed spares
  refine ⟨t.after before, middle, since, after, spares.2.1, noticed, below _ (by simp), ?_, ?_⟩
  · intro i member
    refine ⟨?_, below i (by simp [member])⟩
    exact ordered.2.2 _ (List.mem_map_of_mem here) _ (by simp [List.mem_map_of_mem member])
  · exact ordered.2.2 _ (List.mem_map_of_mem here) _ (by simp)

theorem emits_of_head {t : Throttle} (never : t.emitted = 0) :
    ∀ l ∈ (t.lines incidents).head?, l.Emits := by
  intro l member
  cases incidents with
  | nil => cases member
  | cons i rest =>
    obtain rfl := Option.some.inj member
    rw [emits_iff rfl, isDue, decide_eq_true_eq]
    exact Or.inl never

/-- Behind the last notice, or from the beginning, as many failures wait as there are lines without
one. -/
theorem exists_suppressed_eq {t : Throttle} (never : t.emitted = 0) (none_yet : t.suppressed = 0)
    (ordered : (incidents.map Incident.now).Pairwise (· ≤ ·))
    (below : ∀ i ∈ incidents, i.now < wordMax) {front quiet rest : List Reported} {l : Reported}
    (split : t.lines incidents = front ++ quiet ++ l :: rest)
    (ends : ∀ last ∈ front.getLast?, last.Emits) (silent : ∀ q ∈ quiet, ¬ q.Emits) :
    ∃ t' : Throttle, t'.suppressed = quiet.length ∧
      l.notice = (t'.report l.incident.now l.incident.reason).1 := by
  rcases List.eq_nil_or_concat front with rfl | ⟨front, last, rfl⟩
  · cases quiet with
    | nil =>
      obtain ⟨early, late, -, start, here⟩ := exists_of_lines_eq split
      have empty : early = [] := by
        apply List.eq_nil_of_length_eq_zero
        rw [← t.length_lines early, start]
        rfl
      exact ⟨t.after early, by rw [empty]; exact none_yet, here⟩
    | cons q more =>
      -- the first of all lines has a notice, so it is not among the quiet ones
      have first : q ∈ (t.lines incidents).head? := by rw [split]; rfl
      exact absurd (emits_of_head never q first) (silent q List.mem_cons_self)
  · rw [List.concat_eq_append] at split ends
    obtain ⟨t', middle, since, rfl, -, here, -⟩ :=
      exists_since ordered below split (ends last (by simp))
    refine ⟨t'.after middle, ?_, here⟩
    rw [(since.after_quiet silent).suppressed_eq, length_lines, Nat.zero_add]

/-- **Nothing that is due is held back, and nothing is lost.** -/
theorem throttled_lines (source : String) (interval : Duration) {incidents : List Incident}
    (ordered : (incidents.map Incident.now).Pairwise (· ≤ ·))
    (below : ∀ i ∈ incidents, i.now < wordMax) :
    Throttled source (min interval.toNanos wordMax) incidents
      ((ofInterval source interval).lines incidents)
      ((ofInterval source interval).after incidents) := by
  obtain ⟨new, new_eq⟩ : ∃ t, t = ofInterval source interval := ⟨_, rfl⟩
  have interval_eq : new.interval = min interval.toNanos wordMax := by rw [new_eq]; rfl
  have never : new.emitted = 0 := by rw [new_eq]; rfl
  have none_yet : new.suppressed = 0 := by rw [new_eq]; rfl
  have spares : ∀ early : List Incident, (new.after early).source = source ∧
      (new.after early).total = early.length := by
    intro early
    obtain ⟨same, -, total⟩ := new.after_spares early
    rw [new_eq] at same total ⊢
    exact ⟨same, total.trans (Nat.zero_add _)⟩
  have shares := new.shares_add_suppressed incidents
  rw [none_yet, Nat.zero_add] at shares
  rw [← new_eq, ← interval_eq]
  refine {
    incidents_eq := map_incident_lines _ _
    first := emits_of_head never
    emits_iff := ?_
    apart := ?_
    total_eq := (spares incidents).2
    balance := shares
    named := ?_
    counted := ?_ }
  · intro front l quiet l' rest split emits silent
    obtain ⟨t', middle, since, rfl, same, noticed, early, -, later⟩ :=
      exists_since ordered below split emits
    rw [emits_iff noticed, ← same]
    exact (since.after_quiet silent).isDue_iff later early
  · intro front l between l' rest split emits emits'
    obtain ⟨t', middle, since, -, same, noticed, -, within, later⟩ :=
      exists_since ordered below split emits
    have emitted : l.incident.now < t'.emitted := by
      rw [since.emitted_eq]
      exact Nat.lt_succ_self _
    rw [← same]
    exact add_interval_le_of_isDue (lt_emitted_after emitted within) later
      ((emits_iff noticed).1 emits')
  · intro front l rest n split noticed
    obtain ⟨early, late, -, rfl, here⟩ := exists_of_lines_eq split
    rw [here] at noticed
    rw [eq_failure_of_report noticed, (spares early).1, (spares early).2]
    refine ⟨rfl, Notice.text?_error _ _ _ _, ?_⟩
    rw [Notice.number_total, length_lines]
  · intro front quiet l rest n split ends silent noticed
    obtain ⟨t, count, here⟩ := exists_suppressed_eq never none_yet ordered below split ends silent
    rw [here] at noticed
    rw [eq_failure_of_report noticed, count, Notice.number_suppressed, Notice.isRateLimited_iff]
    exact ⟨rfl, by simp⟩

/-- Six failures within twenty-five nanoseconds. -/
def flurry : List Incident :=
  [⟨0, "a"⟩, ⟨3, "b"⟩, ⟨9, "c"⟩, ⟨10, "d"⟩, ⟨10, "e"⟩, ⟨25, "f"⟩]

/-- With ten nanoseconds between two notices, three of them are reported. -/
theorem throttled_lines_flurry :
    (flurry.map Incident.now).Pairwise (· ≤ ·) ∧ (∀ i ∈ flurry, i.now < wordMax) ∧
      Throttled "write" 10 flurry ((ofInterval "write" ⟨0, 10⟩).lines flurry)
        ((ofInterval "write" ⟨0, 10⟩).after flurry) ∧
      ((ofInterval "write" ⟨0, 10⟩).lines flurry).map Reported.notice =
        [some (.failure "write" "a" 0 1), none, none, some (.failure "write" "d" 2 4), none,
          some (.failure "write" "f" 1 6)] := by
  have ordered : (flurry.map Incident.now).Pairwise (· ≤ ·) := by decide
  have below : ∀ i ∈ flurry, i.now < wordMax := by decide
  exact ⟨ordered, below, throttled_lines "write" ⟨0, 10⟩ ordered below, by decide⟩

end Throttle

end LogRelay
