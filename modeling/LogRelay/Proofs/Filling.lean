/-
# Devices that fill up

A device that takes what it is offered until it is full, however little it takes at a time, has the
first bytes of all encodings that were written to it. A record is written well exactly if its last
byte lies inside the limit, so once one is not written well none is. What was written well is read
back, and one error more if the limit lies inside a record.

Everything follows from how much of each frame the device has (`Device.FillsUp.length_taken`): what
lies between the places where the frame begins and ends, both cut to the limit.

Key definitions: `Device.FillsUp`, `frameStart`, `Shared`, `FilledUp`.
Key theorems: `Device.FillsUp.writeFrame`, `Device.FillsUp.length_taken`, `Shared.ok_iff`,
`filledUp_writeEach`, `LimitedDevice.fillsUp`.
-/
import LogRelay.Proofs.Salvage

namespace LogRelay

/-! ### Writing to the limit -/

namespace Device

variable {δ : Type}

/-- A device that, from its `good` states on, takes at most `chunk` bytes per call and `limit` in
all, and refuses an offer only when it is full. -/
structure FillsUp (dev : Device δ) (view : δ → Bytes) (good : δ → Prop) (chunk limit : Nat) : Prop
    extends dev.Truthful view where
  stays : ∀ d bytes, good d → good (dev.write d bytes).2
  length_le : ∀ d, good d → (view d).length ≤ limit
  share_le : ∀ d bytes count after, good d → dev.write d bytes = (.accepted count, after) →
    count ≤ chunk
  full_of_none : ∀ d bytes after, good d → bytes ≠ [] →
    dev.write d bytes = (.accepted 0, after) → limit ≤ (view d).length
  full_of_failed : ∀ d bytes error after, good d → bytes ≠ [] →
    dev.write d bytes = (.failed error, after) → limit ≤ (view d).length

variable {dev : Device δ} {view : δ → Bytes}

theorem FillsUp.good_after {good : δ → Prop} {chunk limit : Nat}
    (fills : dev.FillsUp view good chunk limit) {d after : δ} {bytes : Bytes} {reply : Reply}
    (start : good d) (replied : dev.write d bytes = (reply, after)) : good after := by
  have still := fills.stays d bytes start
  rwa [replied] at still

theorem FillsUp.writeAll {good : δ → Prop} {chunk limit : Nat}
    (fills : dev.FillsUp view good chunk limit) (d : δ) (bytes : Bytes) (start : good d) :
    good (dev.writeAll d bytes).2 ∧
      ((dev.writeAll d bytes).1 ≠ .ok () → limit ≤ (view (dev.writeAll d bytes).2).length) := by
  fun_induction dev.writeAll d bytes with
  | case1 d => exact ⟨start, fun failed => absurd rfl failed⟩
  | case2 d bytes some after reply =>
    refine ⟨fills.good_after start reply, fun _ => ?_⟩
    have full := fills.full_of_none d bytes after start some reply
    rwa [(fills.accepted d bytes 0 after some reply).2, List.take_zero, List.append_nil]
  | case3 d bytes some count after reply ih => exact ih (fills.good_after start reply)
  | case4 d bytes some after reply ih => exact ih (fills.good_after start reply)
  | case5 d bytes some error after reply =>
    refine ⟨fills.good_after start reply, fun _ => ?_⟩
    rw [fills.failed d bytes error after some reply]
    exact fills.full_of_failed d bytes error after start some reply

end Device

/-- Where frame number `k` begins when the frames are written one behind the other. -/
def frameStart (frames : List Frame) (k : Nat) : Nat :=
  ((frames.take k).flatMap Frame.bytes).length

theorem frameStart_cons (f : Frame) (frames : List Frame) (k : Nat) :
    frameStart (f :: frames) (k + 1) = f.bytes.length + frameStart frames k := by
  rw [frameStart, List.take_succ_cons, List.flatMap_cons, List.length_append, frameStart]

theorem frameStart_succ {frames : List Frame} {k : Nat} (inside : k < frames.length) :
    frameStart frames (k + 1) = frameStart frames k + frames[k].bytes.length := by
  rw [frameStart, List.take_succ_eq_append_getElem inside, List.flatMap_append,
    List.flatMap_singleton, List.length_append, frameStart]

theorem frameStart_le (frames : List Frame) {i j : Nat} (le : i ≤ j) :
    frameStart frames i ≤ frameStart frames j := by
  obtain ⟨more, rfl⟩ := Nat.exists_eq_add_of_le le
  rw [frameStart, frameStart, List.take_add, List.flatMap_append, List.length_append]
  exact Nat.le_add_right _ _

/-- To cut, put more behind and cut again is to put more behind and cut. -/
theorem take_append_take (limit : Nat) (front back : Bytes) :
    (front.take limit ++ back).take limit = (front ++ back).take limit := by
  have left : limit - min limit front.length = limit - front.length := by omega
  rw [List.take_append, List.take_append, List.take_take, Nat.min_self, List.length_take, left]

namespace Device.FillsUp

variable {δ : Type} {dev : Device δ} {view : δ → Bytes} {good : δ → Prop} {chunk limit : Nat}

theorem writeFrame (fills : dev.FillsUp view good chunk limit) {d : δ} (start : good d)
    (f : Frame) : good (dev.writeFrame view d f).2 ∧
      view (dev.writeFrame view d f).2 = (view d ++ f.bytes).take limit := by
  obtain ⟨still, full⟩ := fills.writeAll d f.bytes start
  obtain ⟨held, taken_front, ok_iff⟩ := fills.toTruthful.writeFrame d f
  have room : (view (dev.writeFrame view d f).2).length ≤ limit := fills.length_le _ still
  refine ⟨still, ?_⟩
  by_cases ok : (dev.writeFrame view d f).1.outcome = .ok
  · have all : (dev.writeFrame view d f).1.taken = f.bytes := ok_iff.1 ok
    rw [held, all] at room ⊢
    exact (List.take_of_length_le room).symm
  · have filled : limit ≤ (view (dev.writeFrame view d f).2).length :=
      full fun ended => ok (Outcome.ofExcept_eq_ok_iff.2 ended)
    have front : view (dev.writeFrame view d f).2 <+: view d ++ f.bytes := by
      rw [held]
      exact (List.prefix_append_right_inj _).2 taken_front
    have length : limit = (view (dev.writeFrame view d f).2).length := by omega
    rw [length]
    exact List.prefix_iff_eq_take.1 front

theorem writeEach (fills : dev.FillsUp view good chunk limit) : ∀ (frames : List Frame) {d : δ},
    good d → view (dev.writeEach view d frames).2 =
      (view d ++ frames.flatMap Frame.bytes).take limit
  | [], d, start => by
    rw [List.flatMap_nil, List.append_nil, List.take_of_length_le (fills.length_le d start)]
    rfl
  | f :: rest, d, start => by
    obtain ⟨still, held⟩ := fills.writeFrame start f
    calc view (dev.writeEach view d (f :: rest)).2
        = view (dev.writeEach view (dev.writeFrame view d f).2 rest).2 := rfl
      _ = (view (dev.writeFrame view d f).2 ++ rest.flatMap Frame.bytes).take limit :=
          fills.writeEach rest still
      _ = (view d ++ f.bytes ++ rest.flatMap Frame.bytes).take limit := by
          rw [held, take_append_take]
      _ = (view d ++ (f :: rest).flatMap Frame.bytes).take limit := by
          rw [List.append_assoc, List.flatMap_cons]

theorem length_taken (fills : dev.FillsUp view good chunk limit) : ∀ (frames : List Frame) {d : δ},
    good d → ∀ (i : Nat) (h : i < (dev.writeEach view d frames).1.length),
      (dev.writeEach view d frames).1[i].taken.length =
        min limit ((view d).length + frameStart frames (i + 1)) -
          min limit ((view d).length + frameStart frames i)
  | [], _, _, _, inside => absurd inside (Nat.not_lt_zero _)
  | f :: rest, d, start, i, inside => by
    obtain ⟨still, held⟩ := fills.writeFrame start f
    have length : (view (dev.writeFrame view d f).2).length =
        min limit ((view d).length + f.bytes.length) := by
      rw [held, List.length_take, List.length_append]
    cases i with
    | zero =>
      have taken : (dev.writeFrame view d f).1.taken.length =
          (view (dev.writeFrame view d f).2).length - (view d).length := List.length_drop
      have before := fills.length_le d start
      have first : frameStart (f :: rest) 1 = f.bytes.length := frameStart_cons f rest 0
      have none : frameStart (f :: rest) 0 = 0 := rfl
      refine taken.trans ?_
      rw [length, first, none]
      omega
    | succ i =>
      refine (fills.length_taken rest still i (Nat.lt_of_succ_lt_succ inside)).trans ?_
      rw [length, frameStart_cons, frameStart_cons]
      omega

end Device.FillsUp

/-! ### Devices with limits -/

namespace LimitedDevice

variable {d after : LimitedDevice} {bytes : Bytes}

/-- An offer to a device with limits is interrupted, or refused by one that can take nothing, or
taken as far as the limits allow. -/
theorem write_cases (d : LimitedDevice) (bytes : Bytes) :
    (∃ n, d.write bytes = (.interrupted, { d with interruptions := n })) ∨
      (d.share bytes.length = 0 ∧ ∃ reply, d.write bytes = (reply, d) ∧
        (reply = .accepted 0 ∨ ∃ error, reply = .failed error)) ∨
      (0 < d.share bytes.length ∧ d.write bytes = (.accepted (d.share bytes.length),
        { d with stored := d.stored ++ bytes.take (d.share bytes.length) })) := by
  unfold write
  cases d.interruptions with
  | succ n => exact .inl ⟨n, rfl⟩
  | zero =>
    right
    by_cases none : d.share bytes.length = 0
    · left
      refine ⟨none, ?_⟩
      simp only [if_pos none]
      cases d.refusal with
      | takesNothing => exact ⟨_, rfl, .inl rfl⟩
      | fails error => exact ⟨_, rfl, .inr ⟨error, rfl⟩⟩
    · right
      simp only [if_neg none]
      exact ⟨Nat.pos_of_ne_zero none, trivial⟩

theorem share_le (d : LimitedDevice) (offered : Nat) : d.share offered ≤ offered := by
  unfold share
  cases d.chunk <;> cases d.limit <;> dsimp only <;> omega

theorem share_eq {chunk limit : Nat} (chunked : d.chunk = some chunk)
    (limited : d.limit = some limit) (offered : Nat) :
    d.share offered = min (min offered chunk) (limit - d.stored.length) := by
  simp only [share, chunked, limited]

theorem truthful : device.Truthful stored where
  accepted d bytes count after _ reply := by
    rcases d.write_cases bytes with ⟨n, same⟩ | ⟨-, _, same, rfl | ⟨e, rfl⟩⟩ | ⟨-, same⟩ <;>
      cases same.symm.trans reply
    · exact ⟨Nat.zero_le _, (List.append_nil _).symm⟩
    · exact ⟨d.share_le _, rfl⟩
  interrupted d bytes after _ reply := by
    rcases d.write_cases bytes with ⟨n, same⟩ | ⟨-, _, same, rfl | ⟨e, rfl⟩⟩ | ⟨-, same⟩ <;>
      cases same.symm.trans reply
    rfl
  failed d bytes error after _ reply := by
    rcases d.write_cases bytes with ⟨n, same⟩ | ⟨-, _, same, rfl | ⟨e, rfl⟩⟩ | ⟨-, same⟩ <;>
      cases same.symm.trans reply
    rfl

/-- The device has these limits, and is not beyond them. -/
structure Holds (chunk limit : Nat) (d : LimitedDevice) : Prop where
  chunk_eq : d.chunk = some chunk
  limit_eq : d.limit = some limit
  length_le : d.stored.length ≤ limit

theorem fillsUp {chunk : Nat} (pos : 0 < chunk) (limit : Nat) :
    device.FillsUp stored (Holds chunk limit) chunk limit where
  toTruthful := truthful
  stays d bytes start := by
    have share := share_eq start.chunk_eq start.limit_eq bytes.length
    have most := start.length_le
    show Holds chunk limit (d.write bytes).2
    rcases d.write_cases bytes with ⟨n, same⟩ | ⟨-, _, same, -⟩ | ⟨-, same⟩ <;> rw [same]
    · exact ⟨start.chunk_eq, start.limit_eq, most⟩
    · exact start
    · refine ⟨start.chunk_eq, start.limit_eq, ?_⟩
      rw [List.length_append, List.length_take]
      omega
  length_le d start := start.length_le
  share_le d bytes count after start reply := by
    have share := share_eq start.chunk_eq start.limit_eq bytes.length
    rcases d.write_cases bytes with ⟨n, same⟩ | ⟨-, _, same, rfl | ⟨e, rfl⟩⟩ | ⟨-, same⟩ <;>
      cases same.symm.trans reply
    · exact Nat.zero_le _
    · omega
  full_of_none d bytes after start some reply := by
    have share := share_eq start.chunk_eq start.limit_eq bytes.length
    have offered := List.length_pos_iff.2 some
    rcases d.write_cases bytes with ⟨n, same⟩ | ⟨none, _, same, rfl | ⟨e, rfl⟩⟩ | ⟨taken, same⟩
    · cases same.symm.trans reply
    · omega
    · cases same.symm.trans reply
    · have count : d.share bytes.length = 0 := by
        injection same.symm.trans reply with accepted
        injection accepted
      omega
  full_of_failed d bytes error after start some reply := by
    have share := share_eq start.chunk_eq start.limit_eq bytes.length
    have offered := List.length_pos_iff.2 some
    rcases d.write_cases bytes with ⟨n, same⟩ | ⟨none, _, same, -⟩ | ⟨-, same⟩
    · cases same.symm.trans reply
    · omega
    · cases same.symm.trans reply

end LimitedDevice

/-! ### What is left -/

/-- Of each of the frames the device has what lies inside its limit. -/
structure Shared (limit : Nat) (frames : List Frame) (reports : List WriteReport) : Prop where
  frames_eq : reports.map WriteReport.frame = frames
  encodings : ∀ f ∈ frames, f.IsEncoding
  fair : ∀ r ∈ reports, r.Fair
  length_taken : ∀ (i : Nat) (h : i < reports.length), reports[i].taken.length =
    min limit (frameStart frames (i + 1)) - min limit (frameStart frames i)

namespace Shared

variable {limit : Nat} {frames : List Frame} {reports : List WriteReport} {i : Nat}

/-- A frame has at least one byte, and begins where the one before it ends. -/
theorem length_bytes (shared : Shared limit frames reports) (inside : i < reports.length) :
    0 < reports[i].frame.bytes.length ∧
      frameStart frames (i + 1) = frameStart frames i + reports[i].frame.bytes.length := by
  have length : frames.length = reports.length := by rw [← shared.frames_eq, List.length_map]
  have here : frames[i] = reports[i].frame := by
    simp only [← shared.frames_eq, List.getElem_map]
  have long := (shared.encodings _ (List.getElem_mem (length ▸ inside))).headerSize_le
  rw [here] at long
  refine ⟨Nat.lt_of_lt_of_le (by decide) long, ?_⟩
  rw [frameStart_succ (length ▸ inside), here]

/-- A frame is written well exactly if its last byte lies inside the limit. -/
theorem ok_iff (shared : Shared limit frames reports) (inside : i < reports.length) :
    reports[i].outcome = .ok ↔ frameStart frames (i + 1) ≤ limit := by
  obtain ⟨pos, ends⟩ := shared.length_bytes inside
  have taken := shared.length_taken i inside
  have fair := shared.fair _ (List.getElem_mem inside)
  calc reports[i].outcome = .ok
      ↔ reports[i].taken = reports[i].frame.bytes := fair.ok_iff
    _ ↔ reports[i].taken.length = reports[i].frame.bytes.length :=
        ⟨congrArg List.length, fair.taken_front.eq_of_length⟩
    _ ↔ frameStart frames (i + 1) ≤ limit := by omega

theorem taken_eq_nil_iff (shared : Shared limit frames reports) (inside : i < reports.length) :
    reports[i].taken = [] ↔ limit ≤ frameStart frames i := by
  obtain ⟨pos, ends⟩ := shared.length_bytes inside
  have taken := shared.length_taken i inside
  rw [← List.length_eq_zero_iff]
  omega

/-- A part is there of the frame that the limit lies inside of. -/
theorem isPart_iff (shared : Shared limit frames reports) (inside : i < reports.length) :
    reports[i].IsPart ↔ frameStart frames i < limit ∧ limit < frameStart frames (i + 1) := by
  rw [WriteReport.IsPart, ne_eq, ne_eq, shared.ok_iff inside, shared.taken_eq_nil_iff inside]
  omega

theorem readAll_clean (shared : Shared limit frames reports)
    (clean : ∀ k < frames.length, frameStart frames k < limit →
      frameStart frames (k + 1) ≤ limit) :
    (FrameStream.ofBytes (reports.flatMap WriteReport.taken)).readAll.1 =
      (delivered reports).map .ok := by
  have length : frames.length = reports.length := by rw [← shared.frames_eq, List.length_map]
  have noPart : ∀ r ∈ reports, ¬ r.IsPart := by
    intro r member
    obtain ⟨k, inside, rfl⟩ := List.mem_iff_getElem.1 member
    rw [shared.isPart_iff inside]
    rintro ⟨begins, ends⟩
    exact absurd (clean k (length ▸ inside) begins) (Nat.not_le.2 ends)
  exact readAll_whole (shared.frames_eq ▸ shared.encodings) shared.fair noPart

theorem readAll_torn (shared : Shared limit frames reports) {k : Nat} (inside : k < frames.length)
    (begins : frameStart frames k < limit) (ends : limit < frameStart frames (k + 1)) :
    ∃ needed, (FrameStream.ofBytes (reports.flatMap WriteReport.taken)).readAll.1 =
      (delivered reports).map .ok ++ [.error (.truncated needed (limit - frameStart frames k))] := by
  have length : frames.length = reports.length := by rw [← shared.frames_eq, List.length_map]
  rw [length] at inside
  have split : reports = reports.take k ++ reports[k] :: reports.drop (k + 1) := by
    rw [← List.drop_eq_getElem_cons inside, List.take_append_drop]
  have left : reports[k].taken.length = limit - frameStart frames k := by
    rw [shared.length_taken k inside]
    omega
  rw [← left]
  apply readAll_last (shared.frames_eq ▸ shared.encodings) shared.fair split
  · intro r member
    obtain ⟨i, lt, rfl⟩ := List.mem_take_iff_getElem.1 member
    have order := frameStart_le frames (show i + 1 ≤ k by omega)
    rw [shared.isPart_iff]
    omega
  · exact (shared.isPart_iff inside).2 ⟨begins, ends⟩
  · intro r member
    obtain ⟨i, lt, rfl⟩ := List.mem_drop_iff_getElem.1 member
    have order := frameStart_le frames (show k + 1 ≤ k + 1 + i by omega)
    rw [shared.taken_eq_nil_iff]
    omega

end Shared

/-- What became of frames that were written to a device with room for `limit` bytes, and of reading
them back from the bytes `stored` that it took. -/
structure FilledUp (limit : Nat) (frames : List Frame) (reports : List WriteReport)
    (stored : Bytes) : Prop where
  frames_eq : reports.map WriteReport.frame = frames
  /-- The device has the first bytes of all frames, as many as there is room for. -/
  stored_eq : stored = (frames.flatMap Frame.bytes).take limit
  /-- A frame is written well exactly if its last byte lies inside the limit. -/
  ok_iff : ∀ (i : Nat) (h : i < reports.length),
    reports[i].outcome = .ok ↔ frameStart frames (i + 1) ≤ limit
  /-- Once a frame was not written well none is, and nothing is added. -/
  stays_failed : ∀ (i j : Nat) (_ : i < j) (h : j < reports.length), reports[i].outcome ≠ .ok →
    reports[j].outcome ≠ .ok ∧ reports[j].taken = []
  /-- If the limit is inside no frame, what was written well is read back. -/
  clean : (∀ k < frames.length, frameStart frames k < limit →
    frameStart frames (k + 1) ≤ limit) →
      (FrameStream.ofBytes stored).readAll.1 = (delivered reports).map .ok
  /-- If it is, one error comes behind that. -/
  torn : ∀ k < frames.length, frameStart frames k < limit → limit < frameStart frames (k + 1) →
    ∃ needed, (FrameStream.ofBytes stored).readAll.1 = (delivered reports).map .ok ++
      [.error (.truncated needed (limit - frameStart frames k))]

/-- **A device that fills up has the first bytes of what was written to it**, reports as written
well what lies inside its limit, and gives exactly that back. -/
theorem filledUp_writeEach {δ : Type} {dev : Device δ} {view : δ → Bytes} {good : δ → Prop}
    {chunk limit : Nat} (fills : dev.FillsUp view good chunk limit) {d : δ} (start : good d)
    (blank : view d = []) {frames : List Frame}
    (decoded : ∀ f ∈ frames, ∃ bytes, Frame.decode bytes = .ok f) :
    FilledUp limit frames (dev.writeEach view d frames).1
      (view (dev.writeEach view d frames).2) := by
  obtain ⟨frames_eq, stored_eq, fair⟩ := fills.toTruthful.writeEach frames d
  have first := fills.writeEach frames start
  have taken := fills.length_taken frames start
  rw [blank, List.nil_append] at stored_eq first
  simp only [blank, List.length_nil, Nat.zero_add] at taken
  have encodings : ∀ f ∈ frames, f.IsEncoding := fun f member =>
    (decoded f member).elim fun _ found => Frame.isEncoding_of_decode found
  have shared : Shared limit frames (dev.writeEach view d frames).1 :=
    ⟨frames_eq, encodings, fair, taken⟩
  refine ⟨frames_eq, first, fun i inside => shared.ok_iff inside, ?_, ?_, ?_⟩
  · intro i j before inside failed
    have past := mt (shared.ok_iff (Nat.lt_trans before inside)).2 failed
    have order := frameStart_le frames (show i + 1 ≤ j from before)
    have further := frameStart_le frames (show j ≤ j + 1 by omega)
    rw [ne_eq, shared.ok_iff inside, shared.taken_eq_nil_iff inside]
    omega
  · intro clean
    rw [stored_eq]
    exact shared.readAll_clean clean
  · intro k inside begins ends
    rw [stored_eq]
    exact shared.readAll_torn inside begins ends

/-- Three frames, the second of which is cut inside its message, four bytes at a time. -/
theorem filledUp_writeEach_halfway :
    let first : Record := ⟨7, .info, 3, [104, 105]⟩
    let second : Record := ⟨8, .warn, 3, [98, 121, 101]⟩
    let third : Record := ⟨9, .error, 4, []⟩
    let frames : List Frame := [first, second, third].map fun r => ⟨r, r.encode⟩
    let d : LimitedDevice :=
      { chunk := some 4, limit := some 32, refusal := .fails (.other "full"), interruptions := 1 }
    let (reports, last) := LimitedDevice.device.writeEach LimitedDevice.stored d frames
    LimitedDevice.Holds 4 32 d ∧ d.stored = [] ∧
      (∀ f ∈ frames, ∃ bytes, Frame.decode bytes = .ok f) ∧
      FilledUp 32 frames reports last.stored ∧ delivered reports = [⟨first, first.encode⟩] ∧
      ∃ needed, (FrameStream.ofBytes last.stored).readAll.1 =
        [.ok ⟨first, first.encode⟩, .error (.truncated needed 16)] := by
  intro first second third frames d
  have start : LimitedDevice.Holds 4 32 d := ⟨rfl, rfl, by decide⟩
  have decoded : ∀ f ∈ frames, ∃ bytes, Frame.decode bytes = .ok f :=
    Frame.exists_decode_eq (by decide)
  have filled := filledUp_writeEach (LimitedDevice.fillsUp (by decide) 32) start rfl decoded
  have good : delivered (LimitedDevice.device.writeEach LimitedDevice.stored d frames).1 =
      [⟨first, first.encode⟩] := by cbv
  obtain ⟨needed, read⟩ := filled.torn 1 (by decide) (by decide) (by decide)
  rw [good] at read
  exact ⟨start, rfl, decoded, filled, good, needed, read⟩

end LogRelay
