/-
# Reading a console back

Every record is printed as a heading in brackets, its text, and a newline. The heading is made of
numbers and a name, so it can be read from the front of whatever follows (`Printed.ofLine?_line`);
but the text is printed as it is. As long as texts are lines, a channel has one line for each of
its records and all that was printed is read back from it. A newline in a text makes one line more,
and with the right text behind it this line is that of a record that nobody wrote: two records on a
channel are shown exactly like one whose text goes on like the second (`Console.shown_forging`).

Key definitions: `linesOf`, `Printed`, `Printed.ofLine?`, `Frame.IsPlain`, `Frame.forging`,
`Console.shown`, `Console.readBack`, `Console.Lists`.
Key theorems: `linesOf_inBlocks`, `Printed.ofLine?_line`, `Console.channel_writeEach`,
`Console.shown_forging`, `Console.readBack_shown`, `Console.lists_writeEach`.
-/
import LogRelay.Proofs.Legibility
import LogRelay.Sink.Console
import Mathlib.Data.List.Basic

namespace LogRelay

/-! ### Lines -/

/-- The lines of a text behind the characters `begun` of its first line. Each ends with a newline;
only the last may lack it. -/
def linesFrom (begun : List Char) : List Char → List (List Char)
  | [] => if begun = [] then [] else [begun]
  | c :: rest =>
    if c = '\n' then (begun ++ [c]) :: linesFrom [] rest else linesFrom (begun ++ [c]) rest

/-- The lines of a text. -/
def linesOf (text : List Char) : List (List Char) := linesFrom [] text

/-- Text in blocks, with a newline behind each. -/
def inBlocks (blocks : List (List Char)) : List Char := blocks.flatMap (· ++ ['\n'])

section

variable {begun block rest : List Char} {blocks : List (List Char)}

theorem linesFrom_append_newline (begun front rest : List Char) :
    linesFrom begun (front ++ '\n' :: rest) =
      linesFrom begun (front ++ ['\n']) ++ linesOf rest := by
  induction front generalizing begun with
  | nil => rfl
  | cons c front ih =>
    rw [List.cons_append, List.cons_append, linesFrom, linesFrom, ih, ih]
    split <;> rfl

theorem length_linesFrom (begun front : List Char) :
    (linesFrom begun (front ++ ['\n'])).length = front.count '\n' + 1 := by
  induction front generalizing begun with
  | nil => rfl
  | cons c front ih =>
    rw [List.cons_append, linesFrom, List.count_cons]
    split
    · next newline => rw [List.length_cons, ih, newline, beq_self_eq_true, if_pos rfl]
    · next other => rw [ih, if_neg (by simpa using other), Nat.add_zero]

theorem linesFrom_of_not_mem (clean : '\n' ∉ block) (begun : List Char) :
    linesFrom begun (block ++ ['\n']) = [begun ++ block ++ ['\n']] := by
  induction block generalizing begun with
  | nil => rw [List.nil_append, linesFrom, if_pos rfl, List.append_nil]; rfl
  | cons c block ih =>
    rw [List.mem_cons, not_or] at clean
    rw [List.cons_append, linesFrom, if_neg (Ne.symm clean.1), ih clean.2, List.append_assoc begun,
      List.singleton_append]

theorem inBlocks_cons (block : List Char) (blocks : List (List Char)) :
    inBlocks (block :: blocks) = block ++ '\n' :: inBlocks blocks := by
  rw [inBlocks, List.flatMap_cons, List.append_assoc]
  rfl

/-- There are as many lines as blocks, and one more for each newline inside a block. -/
theorem length_linesOf_inBlocks (blocks : List (List Char)) :
    (linesOf (inBlocks blocks)).length = blocks.length + blocks.flatten.count '\n' := by
  induction blocks with
  | nil => rfl
  | cons block blocks ih =>
    rw [inBlocks_cons, linesOf, linesFrom_append_newline, List.length_append, length_linesFrom, ih,
      List.length_cons, List.flatten_cons, List.count_append]
    omega

/-- Blocks without a newline inside are the lines. -/
theorem linesOf_inBlocks (clean : ∀ block ∈ blocks, '\n' ∉ block) :
    linesOf (inBlocks blocks) = blocks.map (· ++ ['\n']) := by
  induction blocks with
  | nil => rfl
  | cons block blocks ih =>
    obtain ⟨first, others⟩ := List.forall_mem_cons.1 clean
    rw [inBlocks_cons, linesOf, linesFrom_append_newline, linesFrom_of_not_mem first, ih others]
    rfl

end

/-! ### One record -/

/-- What a line says of a record. -/
structure Printed where
  timestamp : UInt64
  severity : Severity
  component : UInt8
  text : String
  deriving DecidableEq, Repr

/-- What is to be printed of a frame. -/
def Frame.printed (f : Frame) : Printed :=
  ⟨f.record.timestamp, f.record.severity, f.record.component, f.text⟩

/-- What stands in a field between `opening` and the next bracket that closes, and what comes
behind it. -/
def field? (opening text : List Char) : Option (List Char × List Char) :=
  (opening.isPrefixOf? text).map fun rest =>
    (rest.takeWhile (· != ']'), (rest.dropWhile (· != ']')).drop 1)

/-- The severity with a given name. -/
def Severity.ofChars? (name : List Char) : Option Severity :=
  Severity.all.find? fun s => s.name.toList == name

/-- What a line says, read from its front. -/
def Printed.ofLine? (line : List Char) : Option Printed := do
  let (timestamp, line) ← field? ['['] line
  let (name, line) ← field? [' ', '['] line
  let (component, line) ← field? " [Component-".toList line
  let text ← [' '].isPrefixOf? line
  let severity ← Severity.ofChars? name
  return ⟨.ofNat (Nat.ofDigitChars 10 timestamp 0), severity,
    .ofNat (Nat.ofDigitChars 10 component 0), String.ofList text⟩

theorem isPrefixOf?_append (front rest : List Char) :
    front.isPrefixOf? (front ++ rest) = some rest :=
  List.isPrefixOf?_eq_some_iff_append_eq.2 rfl

theorem field?_append {contents : List Char} (opening rest : List Char)
    (plain : ']' ∉ contents) :
    field? opening (opening ++ (contents ++ ']' :: rest)) = some (contents, rest) := by
  have inside : ∀ c ∈ contents, (c != ']') = true := by
    intro c member
    simpa using ne_of_mem_of_not_mem member plain
  rw [field?, isPrefixOf?_append, Option.map_some, List.takeWhile_append_of_pos inside,
    List.dropWhile_append_of_pos inside]
  simp

theorem Severity.ofChars?_name (s : Severity) : ofChars? s.name.toList = some s := by
  cases s <;> decide

theorem not_mem_toDigits {c : Char} (other : c.isDigit = false) (n : Nat) :
    c ∉ Nat.toDigits 10 n := by
  intro member
  rw [Nat.isDigit_of_mem_toDigits (by decide) (by decide) member] at other
  cases other

theorem Frame.toList_line (f : Frame) : f.line.toList =
    ['['] ++ (Nat.toDigits 10 f.record.timestamp.toNat ++ ']' ::
      ([' ', '['] ++ (f.record.severity.name.toList ++ ']' ::
        (" [Component-".toList ++ (Nat.toDigits 10 f.record.component.toNat ++ ']' ::
          ([' '] ++ f.text.toList)))))) := by
  simp [line, label, String.toList_append]

theorem Printed.ofLine?_line (f : Frame) : ofLine? f.line.toList = some f.printed := by
  have bracket : (']' : Char).isDigit = false := rfl
  have name : ']' ∉ f.record.severity.name.toList := by
    cases f.record.severity <;> decide
  simp only [ofLine?, Frame.toList_line, field?_append _ _ (not_mem_toDigits bracket _),
    field?_append _ _ name, isPrefixOf?_append, Severity.ofChars?_name, Option.bind_eq_bind,
    Option.bind_some, Nat.ofDigitChars_ten_toDigits, UInt64.ofNat_toNat, UInt8.ofNat_toNat,
    String.ofList_toList]
  rfl

/-- Whether a record is printed on the error channel, or on the other. -/
def Frame.goesTo (errors : Bool) (f : Frame) : Bool := decide (f.record.severity = .error) == errors

/-- The text of the record is a line. -/
def Frame.IsPlain (f : Frame) : Prop := '\n' ∉ f.text.toList

theorem Frame.count_line (f : Frame) : f.line.toList.count '\n' = f.text.toList.count '\n' := by
  have newline : ('\n' : Char).isDigit = false := rfl
  have none : ∀ n, (Nat.toDigits 10 n).count '\n' = 0 := fun n =>
    List.count_eq_zero_of_not_mem (not_mem_toDigits newline n)
  have name : f.record.severity.name.toList.count '\n' = 0 := by
    cases f.record.severity <;> decide
  simp [toList_line, List.count_append, none, name]

/-! ### Text that reads as a record -/

/-- The record of `f` with a text that goes on like a record `g` that is printed behind it. -/
def Frame.forging (f g : Frame) : Frame :=
  let r : Record := { f.record with message := utf8 (f.text ++ "\n" ++ g.line) }
  ⟨r, r.encode⟩

theorem Frame.line_forging (f g : Frame) :
    (f.forging g).line.toList = f.line.toList ++ '\n' :: g.line.toList := by
  have text : (f.forging g).text = f.text ++ "\n" ++ g.line := decodeUtf8_utf8 _
  rw [toList_line, text, toList_line f]
  simp [forging, String.toList_append]

/-! ### A console -/

namespace Console

/-- What was printed on the error channel, or on the other. -/
def channel (c : Console) (errors : Bool) : String := if errors then c.errors else c.output

/-- The records that are printed on a channel. -/
def printedOn (errors : Bool) (fs : List Frame) : List Frame := fs.filter (Frame.goesTo errors)

/-- Hands some frames to the sink that prints. -/
def writeEach (c : Console) (fs : List Frame) : Console :=
  fs.foldl (fun c f => (sink.write c f).state) c

/-- What some frames leave on a channel. -/
def shown (fs : List Frame) (errors : Bool) : List Char :=
  ((writeEach {} fs).channel errors).toList

theorem channel_print (c : Console) (f : Frame) (errors : Bool) :
    (c.print f).channel errors =
      if f.goesTo errors then c.channel errors ++ f.line ++ "\n" else c.channel errors := by
  obtain ⟨⟨timestamp, severity, component, message⟩, bytes⟩ := f
  cases severity <;> cases errors <;> rfl

/-- **A channel is the lines of its records**, in the order in which they were written. -/
theorem channel_writeEach (c : Console) (fs : List Frame) (errors : Bool) :
    ((c.writeEach fs).channel errors).toList = (c.channel errors).toList ++
      inBlocks ((printedOn errors fs).map fun f => f.line.toList) := by
  induction fs generalizing c with
  | nil => exact (List.append_nil _).symm
  | cons f fs ih =>
    have first : writeEach c (f :: fs) = (c.print f).writeEach fs := rfl
    rw [first, ih, channel_print, printedOn, printedOn, List.filter_cons]
    split
    · rw [List.map_cons, inBlocks_cons]
      simp [String.toList_append]
    · rfl

theorem shown_eq (fs : List Frame) (errors : Bool) :
    shown fs errors = inBlocks ((printedOn errors fs).map fun f => f.line.toList) := by
  have blank : (({} : Console).channel errors).toList = [] := by cases errors <;> rfl
  rw [shown, channel_writeEach, blank, List.nil_append]

/-- **Two records on a channel are never told from one**: to print the second behind the first, or
the first with a text that goes on like the second, shows the same. -/
theorem shown_forging (f g : Frame) (before after : List Frame) (errors : Bool)
    (alike : f.goesTo errors = g.goesTo errors) :
    shown (before ++ f.forging g :: after) errors = shown (before ++ f :: g :: after) errors := by
  have goes : (f.forging g).goesTo errors = f.goesTo errors := rfl
  rw [shown_eq, shown_eq, printedOn, printedOn, List.filter_append, List.filter_append,
    List.filter_cons, List.filter_cons, List.filter_cons, goes, ← alike]
  split
  · simp only [inBlocks, List.map_append, List.map_cons, List.flatMap_append, List.flatMap_cons,
      Frame.line_forging, List.append_assoc, List.cons_append, List.nil_append]
  · rfl

/-! ### Reading it back -/

/-- The texts of the records on a channel are lines. -/
def AllPlain (fs : List Frame) (errors : Bool) : Prop :=
  ∀ f ∈ printedOn errors fs, f.IsPlain

/-- What the lines of a text say, one by one. -/
def readBack (text : List Char) : List (Option Printed) :=
  (linesOf text).map fun line => Printed.ofLine? line.dropLast

variable {fs gs : List Frame} {errors : Bool}

theorem count_lines (fs : List Frame) : (fs.map fun f => f.line.toList).flatten.count '\n' =
    (fs.flatMap fun f => f.text.toList).count '\n' := by
  induction fs with
  | nil => rw [List.map_nil, List.flatten_nil, List.flatMap_nil]
  | cons f fs ih =>
    rw [List.map_cons, List.flatten_cons, List.count_append, List.flatMap_cons, List.count_append,
      f.count_line, ih]

/-- A channel has a line for each of its records, and one more for each newline in their texts. -/
theorem length_linesOf_shown (fs : List Frame) (errors : Bool) :
    (linesOf (shown fs errors)).length = (printedOn errors fs).length +
      ((printedOn errors fs).flatMap fun f => f.text.toList).count '\n' := by
  rw [shown_eq, length_linesOf_inBlocks, List.length_map, count_lines]

theorem readBack_shown (plain : AllPlain fs errors) :
    readBack (shown fs errors) =
      ((printedOn errors fs).map Frame.printed).map some := by
  have clean : ∀ line ∈ (printedOn errors fs).map (fun f => f.line.toList),
      '\n' ∉ line := by
    rw [List.forall_mem_map]
    intro f member
    rw [← List.count_eq_zero, f.count_line, List.count_eq_zero]
    exact plain f member
  rw [readBack, shown_eq, linesOf_inBlocks clean, List.map_map, List.map_map, List.map_map]
  refine List.map_congr_left fun f _ => ?_
  simp only [Function.comp_apply, List.dropLast_concat, Printed.ofLine?_line]

/-- What a channel of the console shows of the records that were printed there. -/
structure Lists (fs : List Frame) (errors : Bool) : Prop where
  /-- The lines of the records, in the order in which they were written, and nothing else. -/
  shown_eq : shown fs errors =
    inBlocks ((printedOn errors fs).map fun f => f.line.toList)
  /-- What is printed of one record says all of it, whatever its text is. -/
  ofLine?_line : ∀ f ∈ fs, Printed.ofLine? f.line.toList = some f.printed
  length_eq : (linesOf (shown fs errors)).length = (printedOn errors fs).length +
    ((printedOn errors fs).flatMap fun f => f.text.toList).count '\n'
  /-- There is one line for each record exactly if no text has a newline in it. -/
  one_each_iff : (linesOf (shown fs errors)).length = (printedOn errors fs).length ↔
    AllPlain fs errors
  /-- Then each line says what its record says, in the order of the records, -/
  readBack_eq : AllPlain fs errors → readBack (shown fs errors) =
    ((printedOn errors fs).map Frame.printed).map some
  /-- and no other such records are shown like these. -/
  unique : AllPlain fs errors → ∀ gs, AllPlain gs errors → shown gs errors = shown fs errors →
    (printedOn errors gs).map Frame.printed =
      (printedOn errors fs).map Frame.printed
  /-- But two records are always shown like one whose text goes on like the second of them. -/
  forged : ∀ (before : List Frame) (f g : Frame) (after : List Frame),
    fs = before ++ f :: g :: after → f.goesTo errors = g.goesTo errors →
      shown (before ++ f.forging g :: after) errors = shown fs errors

/-- **What a console shows of records is one line each as long as their texts are lines**, and then
all that is printed of them can be read back. -/
theorem lists_writeEach (fs : List Frame) (errors : Bool) : Lists fs errors where
  shown_eq := shown_eq fs errors
  ofLine?_line f _ := Printed.ofLine?_line f
  length_eq := length_linesOf_shown fs errors
  one_each_iff := by
    rw [length_linesOf_shown, Nat.add_eq_left, List.count_eq_zero, List.mem_flatMap]
    exact not_exists.trans (forall_congr' fun f => not_and)
  readBack_eq := readBack_shown
  unique := by
    intro plain gs plain' same
    have printed := congrArg readBack same
    rw [readBack_shown plain, readBack_shown plain'] at printed
    exact List.map_injective_iff.2 (fun _ _ => Option.some.inj) printed
  forged := by
    rintro before f g after rfl alike
    exact shown_forging f g before after errors alike

/-- **One record may be shown as two lines**, which are what two other records are shown as. -/
theorem one_record_in_two_lines :
    let frame (r : Record) : Frame := ⟨r, r.encode⟩
    let first := frame ⟨0, .info, 0, utf8 "a"⟩
    let second := frame ⟨5, .info, 0, utf8 "b"⟩
    let forged := frame ⟨0, .info, 0, utf8 "a\n[5] [INFO] [Component-0] b"⟩
    (∀ f ∈ [first, second, forged], Frame.decode f.record.encode = .ok f) ∧
      (linesOf (shown [forged] false)).length = 2 ∧
      shown [forged] false = shown [first, second] false ∧
      [forged].map Frame.printed ≠ [first, second].map Frame.printed := by
  intro frame first second forged
  have decoded : ∀ f ∈ [first, second, forged], Frame.decode f.record.encode = .ok f := by decide
  have a : first.text = "a" := decodeUtf8_utf8 "a"
  have b : second.text = "b" := decodeUtf8_utf8 "b"
  have line : second.line = "[5] [INFO] [Component-0] b" := by
    rw [Frame.line, Frame.label, b]
    decide
  have goesOn : forged = first.forging second := by
    rw [Frame.forging, a, line]
    decide
  have merged : shown [forged] false = shown [first, second] false := by
    rw [goesOn]
    exact shown_forging first second [] [] false rfl
  refine ⟨decoded, ?_, merged, fun same => ?_⟩
  · rw [merged, length_linesOf_shown]
    show 2 + (first.text.toList ++ (second.text.toList ++ [])).count '\n' = 2
    rw [a, b]
    decide
  · exact absurd (congrArg List.length same) (by decide)

end Console

end LogRelay
