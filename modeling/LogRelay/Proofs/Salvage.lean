/-
# What is left on a device

The binary sink writes the encodings of records to a device that may take a part of what it is
offered, be interrupted, take nothing or fail. Of each record the device then has a first piece, all
of it exactly if the call ended well. As long as each record is there in full or not at all, what is
read back is what ended well. A part of a record with more bytes behind it is read together with
these, so that a record that ended well may be lost behind it, and one be read that nobody wrote
(`lost_behind_part`); what stands before the first such part is safe, and if nothing stands behind
it, nothing else is lost.

Key definitions: `Device.Truthful`, `WriteReport`, `Device.writeEach`, `delivered`, `Salvaged`,
`Moody`.
Key theorems: `Device.Truthful.writeAll`, `FrameStream.readAll_append`, `readAll_before`,
`readAll_last`, `salvaged_writeEach`.
-/
import LogRelay.Proofs.Sifting
import LogRelay.Sink.Binary
import Mathlib.Data.List.TakeDrop

namespace LogRelay

/-! ### Devices -/

namespace Device

variable {δ : Type}

/-- A device that says how much it takes: `view` of it grows by as many bytes of an offer as it
accepts, and by nothing else. -/
structure Truthful (dev : Device δ) (view : δ → Bytes) : Prop where
  accepted : ∀ d bytes count after, bytes ≠ [] → dev.write d bytes = (.accepted count, after) →
    count ≤ bytes.length ∧ view after = view d ++ bytes.take count
  interrupted : ∀ d bytes after, bytes ≠ [] → dev.write d bytes = (.interrupted, after) →
    view after = view d
  failed : ∀ d bytes error after, bytes ≠ [] → dev.write d bytes = (.failed error, after) →
    view after = view d

variable {dev : Device δ} {view : δ → Bytes}

/-- Whoever writes everything leaves a first part of it, all of it exactly if that ends well. -/
theorem Truthful.writeAll (truthful : dev.Truthful view) (d : δ) (bytes : Bytes) :
    ∃ count ≤ bytes.length, view (dev.writeAll d bytes).2 = view d ++ bytes.take count ∧
      ((dev.writeAll d bytes).1 = .ok () ↔ count = bytes.length) := by
  fun_induction dev.writeAll d bytes with
  | case1 d => exact ⟨0, Nat.le_refl 0, (List.append_nil _).symm, by simp⟩
  | case2 d bytes some after reply =>
    have pos := List.length_pos_iff.2 some
    exact ⟨0, Nat.zero_le _, (truthful.accepted d bytes 0 after some reply).2,
      by simp only [reduceCtorEq, false_iff]; omega⟩
  | case3 d bytes some count after reply ih =>
    obtain ⟨le, grown⟩ := truthful.accepted d bytes _ after some reply
    obtain ⟨more, inside, held, ended⟩ := ih
    rw [List.length_drop] at inside ended
    refine ⟨count + 1 + more, by omega, ?_, ended.trans (by omega)⟩
    rw [held, grown, List.append_assoc, ← List.take_add]
  | case4 d bytes some after reply ih =>
    rwa [truthful.interrupted d bytes after some reply] at ih
  | case5 d bytes some error after reply =>
    have pos := List.length_pos_iff.2 some
    exact ⟨0, Nat.zero_le _,
      by rw [truthful.failed d bytes error after some reply, List.take_zero, List.append_nil],
      by simp only [reduceCtorEq, false_iff]; omega⟩

end Device

theorem Frame.exists_decode_eq {rs : List Record}
    (stated : ∀ r ∈ rs, r.message.length ≤ maxMessageLength) :
    ∀ f ∈ rs.map fun r => (⟨r, r.encode⟩ : Frame), ∃ bytes, decode bytes = .ok f := by
  intro f member
  obtain ⟨r, inside, rfl⟩ := List.mem_map.1 member
  exact ⟨r.encode, decode_encode (stated r inside)⟩

/-! ### Writing frame after frame -/

theorem Outcome.ofExcept_eq_ok_iff {result : Except OutputError Unit} :
    ofExcept result = .ok ↔ result = .ok () := by
  cases result with
  | error e => constructor <;> rintro ⟨⟩
  | ok done => exact ⟨fun _ => rfl, fun _ => rfl⟩

/-- What became of a frame: the bytes that the device took while it was written, and how the call
ended. -/
structure WriteReport where
  frame : Frame
  taken : Bytes
  outcome : Outcome
  deriving DecidableEq, Repr

namespace WriteReport

/-- The device took a first part of the frame, all of it exactly if the call ended well. -/
structure Fair (r : WriteReport) : Prop where
  taken_front : r.taken <+: r.frame.bytes
  ok_iff : r.outcome = .ok ↔ r.taken = r.frame.bytes

/-- A part of the frame is there, and the rest of it is not. -/
def IsPart (r : WriteReport) : Prop := r.outcome ≠ .ok ∧ r.taken ≠ []

theorem Fair.outcome_ne_ok {r : WriteReport} (fair : r.Fair) (whole : r.frame.IsEncoding)
    (nothing : r.taken = []) : r.outcome ≠ .ok := by
  intro ok
  have long := whole.headerSize_le
  rw [← fair.ok_iff.1 ok, nothing] at long
  exact absurd long (by decide)

end WriteReport

/-- The frames whose calls ended well. -/
def delivered (reports : List WriteReport) : List Frame :=
  (reports.filter fun r => r.outcome = .ok).map WriteReport.frame

theorem delivered_append (first rest : List WriteReport) :
    delivered (first ++ rest) = delivered first ++ delivered rest := by
  rw [delivered, List.filter_append, List.map_append, delivered, delivered]

theorem delivered_eq_nil {reports : List WriteReport} (failed : ∀ r ∈ reports, r.outcome ≠ .ok) :
    delivered reports = [] := by
  rw [delivered, List.filter_eq_nil_iff.2 fun r member => by simp [failed r member], List.map_nil]

/-- Where frames are there in full or not at all, the frames that were written well are there. -/
theorem flatMap_taken_eq : ∀ {reports : List WriteReport}, (∀ r ∈ reports, r.Fair) →
    (∀ r ∈ reports, ¬ r.IsPart) →
      reports.flatMap WriteReport.taken = (delivered reports).flatMap Frame.bytes
  | [], _, _ => rfl
  | r :: rest, fair, whole => by
    have ih := flatMap_taken_eq (fun q member => fair q (List.mem_cons_of_mem r member))
      fun q member => whole q (List.mem_cons_of_mem r member)
    rw [List.flatMap_cons, ih, delivered, delivered]
    by_cases ok : r.outcome = .ok
    · rw [List.filter_cons_of_pos (by simpa using ok), List.map_cons, List.flatMap_cons,
        ((fair r List.mem_cons_self).ok_iff.1 ok)]
    · have nothing : r.taken = [] :=
        Decidable.not_not.1 fun some => whole r List.mem_cons_self ⟨ok, some⟩
      rw [List.filter_cons_of_neg (by simpa using ok), nothing, List.nil_append]

namespace Device

variable {δ : Type} {dev : Device δ} {view : δ → Bytes}

/-- Hands a frame to the binary sink. -/
def writeFrame (dev : Device δ) (view : δ → Bytes) (d : δ) (f : Frame) : WriteReport × δ :=
  let reply := (binarySink dev).write d f
  (⟨f, (view reply.state).drop (view d).length, reply.outcome⟩, reply.state)

/-- Hands frames to the binary sink, one after the other. -/
def writeEach (dev : Device δ) (view : δ → Bytes) (d : δ) : List Frame → List WriteReport × δ
  | [] => ([], d)
  | f :: rest =>
    let (report, d) := dev.writeFrame view d f
    let (reports, last) := dev.writeEach view d rest
    (report :: reports, last)

theorem Truthful.writeFrame (truthful : dev.Truthful view) (d : δ) (f : Frame) :
    view (dev.writeFrame view d f).2 = view d ++ (dev.writeFrame view d f).1.taken ∧
      (dev.writeFrame view d f).1.Fair := by
  obtain ⟨count, inside, held, ended⟩ := truthful.writeAll d f.bytes
  have taken : (dev.writeFrame view d f).1.taken = f.bytes.take count := by
    show (view (dev.writeAll d f.bytes).2).drop (view d).length = _
    rw [held, List.drop_left]
  refine ⟨by rw [taken, ← held]; rfl, ?_, ?_⟩
  · rw [taken]
    exact List.take_prefix count f.bytes
  · rw [taken]
    calc (dev.writeFrame view d f).1.outcome = .ok
        ↔ (dev.writeAll d f.bytes).1 = .ok () := Outcome.ofExcept_eq_ok_iff
      _ ↔ count = f.bytes.length := ended
      _ ↔ f.bytes.take count = f.bytes := by rw [List.take_eq_self_iff]; omega

theorem Truthful.writeEach (truthful : dev.Truthful view) : ∀ (frames : List Frame) (d : δ),
    (dev.writeEach view d frames).1.map WriteReport.frame = frames ∧
      view (dev.writeEach view d frames).2 =
        view d ++ (dev.writeEach view d frames).1.flatMap WriteReport.taken ∧
      ∀ r ∈ (dev.writeEach view d frames).1, r.Fair
  | [], _ => ⟨rfl, (List.append_nil _).symm, fun _ member => absurd member List.not_mem_nil⟩
  | f :: rest, d => by
    obtain ⟨held, fair⟩ := truthful.writeFrame d f
    obtain ⟨frames, stored, others⟩ := truthful.writeEach rest (dev.writeFrame view d f).2
    refine ⟨congrArg (f :: ·) frames, ?_, ?_⟩
    · show view (dev.writeEach view (dev.writeFrame view d f).2 rest).2 = _
      rw [stored, held, List.append_assoc]
      rfl
    · intro r member
      rcases List.mem_cons.1 member with rfl | later
      · exact fair
      · exact others r later

end Device

/-! ### Reading back -/

namespace FrameStream

/-- Encodings in front of a stream are read first, whatever stands behind them. -/
theorem readAll_append : ∀ {frames : List Frame}, (∀ f ∈ frames, f.IsEncoding) →
    ∀ (rest : Bytes) (position : Nat),
      (readAll ⟨frames.flatMap Frame.bytes ++ rest, position, false⟩).1 = frames.map .ok ++
        (readAll ⟨rest, position + (frames.flatMap Frame.bytes).length, false⟩).1
  | [], _, _, _ => rfl
  | f :: frames, whole, rest, position => by
    have mine := whole f List.mem_cons_self
    have others := readAll_append (fun g member => whole g (List.mem_cons_of_mem f member)) rest
      (position + f.bytes.length)
    have first : next ⟨f.bytes ++ (frames.flatMap Frame.bytes ++ rest), position, false⟩ =
        (some (.ok f), ⟨frames.flatMap Frame.bytes ++ rest, position + f.bytes.length, false⟩) := by
      rw [mine.bytes_eq, next_encode_append mine.stated, ← mine.bytes_eq]
    rw [List.flatMap_cons, List.append_assoc, readAll_of_next first, others, List.length_append,
      Nat.add_assoc]
    rfl

end FrameStream

section

variable {reports first rest : List WriteReport} {part : WriteReport}

theorem readAll_before (whole : ∀ f ∈ reports.map WriteReport.frame, f.IsEncoding)
    (fair : ∀ r ∈ reports, r.Fair) (split : reports = first ++ rest)
    (noPart : ∀ r ∈ first, ¬ r.IsPart) :
    (FrameStream.ofBytes (reports.flatMap WriteReport.taken)).readAll.1 =
      (delivered first).map .ok ++ (FrameStream.readAll ⟨rest.flatMap WriteReport.taken,
        (first.flatMap WriteReport.taken).length, false⟩).1 := by
  subst split
  have front := flatMap_taken_eq (fun r member => fair r (List.mem_append_left rest member)) noPart
  have encodings : ∀ f ∈ delivered first, f.IsEncoding := by
    intro f member
    obtain ⟨r, inside, rfl⟩ := List.mem_map.1 member
    exact whole _ (List.mem_map_of_mem (List.mem_append_left rest (List.mem_of_mem_filter inside)))
  rw [List.flatMap_append, front, FrameStream.ofBytes, FrameStream.readAll_append encodings,
    Nat.zero_add]

theorem readAll_whole (whole : ∀ f ∈ reports.map WriteReport.frame, f.IsEncoding)
    (fair : ∀ r ∈ reports, r.Fair) (noPart : ∀ r ∈ reports, ¬ r.IsPart) :
    (FrameStream.ofBytes (reports.flatMap WriteReport.taken)).readAll.1 =
      (delivered reports).map .ok := by
  have nothing : (FrameStream.readAll ⟨[], (reports.flatMap WriteReport.taken).length,
      false⟩).1 = [] := congrArg Prod.fst (FrameStream.readAll_of_next_none rfl)
  rw [readAll_before whole fair (List.append_nil reports).symm noPart, List.flatMap_nil, nothing,
    List.append_nil]

/-- A part that nothing stands behind costs only its own frame. -/
theorem readAll_last (whole : ∀ f ∈ reports.map WriteReport.frame, f.IsEncoding)
    (fair : ∀ r ∈ reports, r.Fair) (split : reports = first ++ part :: rest)
    (noPart : ∀ r ∈ first, ¬ r.IsPart) (isPart : part.IsPart) (nothing : ∀ r ∈ rest, r.taken = []) :
    ∃ needed, (FrameStream.ofBytes (reports.flatMap WriteReport.taken)).readAll.1 =
      (delivered reports).map .ok ++ [.error (.truncated needed part.taken.length)] := by
  have read := readAll_before whole fair split noPart
  subst split
  have member : part ∈ first ++ part :: rest :=
    List.mem_append_right first List.mem_cons_self
  have later : ∀ r ∈ part :: rest, r.outcome ≠ .ok := by
    intro r at_
    rcases List.mem_cons.1 at_ with rfl | behind
    · exact isPart.1
    · have inside : r ∈ first ++ part :: rest := List.mem_append_right first at_
      exact (fair r inside).outcome_ne_ok (whole _ (List.mem_map_of_mem inside)) (nothing r behind)
  have tail : (part :: rest).flatMap WriteReport.taken = part.taken := by
    rw [List.flatMap_cons, List.flatMap_eq_nil_iff.2 nothing, List.append_nil]
  obtain ⟨stated, bytes⟩ := whole _ (List.mem_map_of_mem member)
  -- what is there of the part is a first piece of its encoding, and not all of it
  obtain ⟨taken_front, ok_iff⟩ := fair part member
  have shorter : part.taken.length < part.frame.record.encode.length := by
    rw [← bytes]
    refine Nat.lt_of_le_of_ne taken_front.length_le fun same => ?_
    exact isPart.1 (ok_iff.2 (taken_front.eq_of_length same))
  have piece : part.taken = part.frame.record.encode.take part.taken.length := by
    rw [← bytes]
    exact List.prefix_iff_eq_take.1 taken_front
  have some : part.taken.length ≠ 0 := fun none => isPart.2 (List.length_eq_zero_iff.1 none)
  have torn := (FrameStream.readAll_torn stated shorter
    (first.flatMap WriteReport.taken).length).1
  rw [← piece, LogRelay.torn, if_neg some] at torn
  refine ⟨if part.taken.length < headerSize then headerSize else
    part.frame.record.encode.length, ?_⟩
  rw [read, tail, torn, delivered_append, delivered_eq_nil later, List.append_nil]

end

/-- What became of frames that were written to a device, whatever it did, and of reading them back
from the bytes `stored` that it took. -/
structure Salvaged (frames : List Frame) (reports : List WriteReport) (stored : Bytes) : Prop where
  frames_eq : reports.map WriteReport.frame = frames
  stored_eq : stored = reports.flatMap WriteReport.taken
  fair : ∀ r ∈ reports, r.Fair
  /-- As long as there are no parts, what was written well is read, in order. -/
  before : ∀ first rest, reports = first ++ rest → (∀ r ∈ first, ¬ r.IsPart) →
    (FrameStream.ofBytes stored).readAll.1 = (delivered first).map .ok ++
      (FrameStream.readAll ⟨rest.flatMap WriteReport.taken,
        (first.flatMap WriteReport.taken).length, false⟩).1
  /-- If nothing stands behind a part, all that was written well is read, in order, and at most one
  error behind it. -/
  kept : reports.Pairwise (fun r later => r.IsPart → later.taken = []) →
    ∃ tail, (FrameStream.ofBytes stored).readAll.1 = (delivered reports).map .ok ++ tail ∧
      (tail = [] ∨ ∃ needed left, tail = [.error (.truncated needed left)])

/-- **What was written well is read back as long as no part of a frame has bytes behind it.**
Whatever a device does that says how much it takes, of every frame it has a first piece, all of it
exactly if the call ended well. Up to the first frame of which there is only a part everything
written well is read back, and everything is if nothing stands behind that part. -/
theorem salvaged_writeEach {δ : Type} {dev : Device δ} {view : δ → Bytes}
    (truthful : dev.Truthful view) {d : δ} (blank : view d = []) {frames : List Frame}
    (decoded : ∀ f ∈ frames, ∃ bytes, Frame.decode bytes = .ok f) :
    Salvaged frames (dev.writeEach view d frames).1 (view (dev.writeEach view d frames).2) := by
  obtain ⟨frames_eq, stored_eq, fair⟩ := truthful.writeEach frames d
  rw [blank, List.nil_append] at stored_eq
  have encodings : ∀ f ∈ (dev.writeEach view d frames).1.map WriteReport.frame, f.IsEncoding := by
    intro f member
    rw [frames_eq] at member
    exact (decoded f member).elim fun _ found => Frame.isEncoding_of_decode found
  refine ⟨frames_eq, stored_eq, fair, ?_, ?_⟩
  · intro first rest split noPart
    rw [stored_eq]
    exact readAll_before encodings fair split noPart
  · intro alone
    rw [stored_eq]
    by_cases some : ∃ part ∈ (dev.writeEach view d frames).1, part.IsPart
    · obtain ⟨part, member, isPart⟩ := some
      obtain ⟨first, rest, split⟩ := List.append_of_mem member
      rw [split, List.pairwise_append, List.pairwise_cons] at alone
      obtain ⟨-, ⟨behind, -⟩, across⟩ := alone
      have noPart : ∀ r ∈ first, ¬ r.IsPart := fun r inside torn =>
        isPart.2 (across r inside part List.mem_cons_self torn)
      obtain ⟨needed, read⟩ := readAll_last encodings fair split noPart isPart
        fun r later => behind r later isPart
      exact ⟨_, read, .inr ⟨needed, _, rfl⟩⟩
    · have noPart : ∀ r ∈ (dev.writeEach view d frames).1, ¬ r.IsPart :=
        fun r member torn => some ⟨r, member, torn⟩
      exact ⟨[], by rw [readAll_whole encodings fair noPart, List.append_nil], .inl rfl⟩

/-- A device whose replies are laid down beforehand, one for each call, and which takes everything
when there are none left. -/
structure Moody where
  moods : List Device.Reply
  stored : Bytes := []

namespace Moody

/-- The device. -/
def device : Device Moody where
  write d bytes :=
    match d.moods with
    | [] => (.accepted bytes.length, { d with stored := d.stored ++ bytes })
    | .accepted count :: rest =>
      (.accepted (min count bytes.length), ⟨rest, d.stored ++ bytes.take count⟩)
    | .interrupted :: rest => (.interrupted, { d with moods := rest })
    | .failed error :: rest => (.failed error, { d with moods := rest })
  flush d := (.ok (), d)
  patience d := d.moods.length
  patience_lt := by
    rintro ⟨moods, stored⟩ bytes after reply
    rcases moods with _ | ⟨_ | _ | _, rest⟩ <;> cases reply
    exact Nat.lt_succ_self _

theorem truthful : device.Truthful stored := by
  refine ⟨?_, ?_, ?_⟩
  · rintro ⟨moods, stored⟩ bytes count after - reply
    rcases moods with _ | ⟨_ | _ | _, rest⟩ <;> cases reply
    · exact ⟨Nat.le_refl _, by rw [List.take_length]⟩
    · exact ⟨Nat.min_le_right _ _, congrArg (stored ++ ·) List.take_eq_take_min⟩
  · rintro ⟨moods, stored⟩ bytes after - reply
    rcases moods with _ | ⟨_ | _ | _, rest⟩ <;> cases reply
    rfl
  · rintro ⟨moods, stored⟩ bytes error after - reply
    rcases moods with _ | ⟨_ | _ | _, rest⟩ <;> cases reply
    rfl

end Moody

/-- A device that fails before the first byte of a frame, takes the next one piece by piece, and
fails for good inside the last one. -/
theorem salvaged_writeEach_unplugged :
    let lost : Record := ⟨10, .info, 1, [97]⟩
    let whole : Record := ⟨11, .warn, 1, [98, 99]⟩
    let part : Record := ⟨12, .error, 2, [100]⟩
    let frames : List Frame := [lost, whole, part].map fun r => ⟨r, r.encode⟩
    let d : Moody := ⟨[.failed (.other "busy"), .accepted 5, .interrupted, .accepted 20,
      .accepted 3, .failed (.other "unplugged")], []⟩
    let (reports, last) := Moody.device.writeEach Moody.stored d frames
    d.stored = [] ∧ (∀ f ∈ frames, ∃ bytes, Frame.decode bytes = .ok f) ∧
      Salvaged frames reports last.stored ∧
      reports.map (fun r => (r.taken.length, decide (r.outcome = .ok))) =
        [(0, false), (16, true), (3, false)] ∧
      ∃ tail, (FrameStream.ofBytes last.stored).readAll.1 = .ok ⟨whole, whole.encode⟩ :: tail := by
  intro lost whole part frames d
  have decoded : ∀ f ∈ frames, ∃ bytes, Frame.decode bytes = .ok f :=
    Frame.exists_decode_eq (by decide)
  have salvaged := salvaged_writeEach Moody.truthful (d := d) rfl decoded
  have reports : (Moody.device.writeEach Moody.stored d frames).1 =
      [⟨⟨lost, lost.encode⟩, [], .failed (.other "busy")⟩,
        ⟨⟨whole, whole.encode⟩, whole.encode, .ok⟩,
        ⟨⟨part, part.encode⟩, [0, 0, 0], .failed (.other "unplugged")⟩] := by cbv
  obtain ⟨tail, read, -⟩ := salvaged.kept (by rw [reports]; simp [WriteReport.IsPart])
  rw [reports] at read
  exact ⟨rfl, decoded, salvaged, congrArg (List.map _) reports, tail, read⟩

/-- **A frame that was written well can be lost.** One byte of a first frame is there when the device
fails. What is read back is a frame that nobody wrote, and then nothing: the second frame is lost,
though it was written well. -/
theorem lost_behind_part :
    let first : Record := ⟨0, .info, 0, [97]⟩
    let second : Record := ⟨1, .info, 0, [98]⟩
    let (reports, last) := Moody.device.writeEach Moody.stored
      ⟨[.accepted 1, .failed (.other "unplugged")], []⟩
      [⟨first, first.encode⟩, ⟨second, second.encode⟩]
    reports.map WriteReport.outcome = [.failed (.other "unplugged"), .ok] ∧
      delivered reports = [⟨second, second.encode⟩] ∧
      (FrameStream.ofBytes last.stored).readAll.1 =
        [.ok ⟨⟨0, .trace, 3, []⟩, [0, 0, 0, 0, 0, 0, 0, 0, 1, 3, 0, 0, 0, 0]⟩,
          .error (.truncated 14 2)] := by
  intro first second
  have written : Moody.device.writeEach Moody.stored
      ⟨[.accepted 1, .failed (.other "unplugged")], []⟩
      [⟨first, first.encode⟩, ⟨second, second.encode⟩] =
        ([⟨⟨first, first.encode⟩, [0], .failed (.other "unplugged")⟩,
          ⟨⟨second, second.encode⟩, second.encode, .ok⟩], ⟨[], 0 :: second.encode⟩) := by cbv
  have forged : (FrameStream.ofBytes (0 :: second.encode)).next =
      (some (.ok ⟨⟨0, .trace, 3, []⟩, [0, 0, 0, 0, 0, 0, 0, 0, 1, 3, 0, 0, 0, 0]⟩),
        ⟨[1, 98], 14, false⟩) := by decide
  have stuck : FrameStream.next ⟨[1, 98], 14, false⟩ =
      (some (.error (.truncated 14 2)), ⟨[1, 98], 14, true⟩) := rfl
  rw [written]
  refine ⟨rfl, rfl, ?_⟩
  rw [FrameStream.readAll_of_next forged, FrameStream.readAll_of_next stuck,
    FrameStream.readAll_of_next_none (FrameStream.next_of_failed rfl)]

end LogRelay
