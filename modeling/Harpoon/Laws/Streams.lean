import Harpoon.Desktop.Streams
import Harpoon.Docker.Output

/-!
# Streams lose nothing

However the bytes of a stream are cut, what a decoder puts out for them, with what it puts out at the end, is the text
of all the bytes. The invariant of the induction is that what waits between two chunks is the start of a character, and
nothing else.
-/

namespace Harpoon.Streams

open Wire

section

variable {bs carry bytes : Bytes} {e : Utf8Error} {out : String}

/-- The bytes are the start of a character, or none. -/
def Waits (carry : Bytes) : Prop := decodeFrom [] carry = ([], carry)

theorem decode_text (s : String) (bs : Bytes) :
    decodeFrom [] (utf8 s ++ bs) = (s.toList ++ (decodeFrom [] bs).1, (decodeFrom [] bs).2) := by
  rw [decodeFrom_append, decodeFrom_utf8]

/-- Where an error lets the bytes end, the decoder waits. -/
theorem broken_end (broken : Broken bs e) (ends : e.errorLen = none) :
    ∃ s, fromUtf8 (bs.take e.validUpTo) = some s ∧ decodeFrom [] bs = (s.toList, bs.drop e.validUpTo) ∧
      Waits (bs.drop e.validUpTo) ∧ bs.drop e.validUpTo ≠ [] := by
  cases broken with
  | at_ s bs len stops =>
    have same : len = none := ends
    rw [same] at stops
    refine ⟨s, by rw [List.take_left, fromUtf8_utf8], ?_, ?_⟩
    · rw [List.drop_left, decode_text, stops.1, List.append_nil]
    · rw [List.drop_left]
      exact stops

/-- Where an error gives bytes up, the decoder replaces them. -/
theorem broken_goes {n : Nat} (broken : Broken bs e) (bad : e.errorLen = some n) :
    ∃ s, fromUtf8 (bs.take e.validUpTo) = some s ∧
      decodeFrom [] bs = (s.toList ++ replacement :: (decodeFrom [] (bs.drop (e.validUpTo + n))).1,
        (decodeFrom [] (bs.drop (e.validUpTo + n))).2) := by
  cases broken with
  | at_ s bs len stops =>
    have same : len = some n := bad
    rw [same] at stops
    have rest : (utf8 s ++ bs).drop ((utf8 s).length + n) = bs.drop n := by rw [← List.drop_drop, List.drop_left]
    refine ⟨s, by rw [List.take_left, fromUtf8_utf8], ?_⟩
    rw [rest, decode_text, stops.2.2]

theorem ofList_append (s : String) (cs : List Char) : String.ofList (s.toList ++ cs) = s ++ String.ofList cs := by
  rw [← String.toList_inj, String.toList_ofList, String.toList_append, String.toList_ofList]

theorem ofList_replacement (cs : List Char) : String.ofList (replacement :: cs) = "\ufffd" ++ String.ofList cs := by
  have chars : (String.ofList cs).toList = cs := String.toList_ofList
  rw [← String.toList_inj, String.toList_ofList, String.toList_append, chars]
  rfl

/-! ## The loops -/

/-- What the loop puts out and leaves is what the decoder does. -/
theorem decodeLoop_eq (out : String) (bs : Bytes) :
    decodeLoop out bs = (out ++ String.ofList (decodeFrom [] bs).1, (decodeFrom [] bs).2) := by
  induction out, bs using decodeLoop.induct with
  | case1 out bs valid =>
    obtain ⟨s, rfl⟩ := utf8Error_none valid
    rw [decodeLoop.eq_def, decodeFrom_utf8]
    split
    · rw [validText_utf8, String.ofList_toList]
    · next error =>
      rw [valid] at error
      cases error
  | case2 out bs e error bad =>
    obtain ⟨s, text, decoded, -⟩ := broken_end (utf8Error_some error) bad
    rw [decodeLoop.eq_def, decoded]
    split
    · next valid =>
      rw [valid] at error
      cases error
    · next e' error' =>
      rw [error] at error'
      cases error'
      split
      · rw [validText, text, Option.getD_some, String.ofList_toList]
      · next n bad' =>
        rw [bad] at bad'
        cases bad'
  | case3 out bs e error n bad ih =>
    obtain ⟨s, text, decoded⟩ := broken_goes (utf8Error_some error) bad
    rw [decodeLoop.eq_def, decoded]
    split
    · next valid =>
      rw [valid] at error
      cases error
    · next e' error' =>
      rw [error] at error'
      cases error'
      split
      · next bad' =>
        rw [bad] at bad'
        cases bad'
      · next n' bad' =>
        rw [bad] at bad'
        cases bad'
        rw [ih, validText, text, Option.getD_some, ofList_append, ofList_replacement, String.append_assoc, String.append_assoc]

/-- No prefix that the loop takes is anything but text. -/
theorem outputLoop_eq (text : String) (bs : Bytes) :
    outputLoop text bs = some (text ++ String.ofList (decodeFrom [] bs).1, (decodeFrom [] bs).2) := by
  induction text, bs using outputLoop.induct with
  | case1 text bs valid =>
    obtain ⟨s, rfl⟩ := utf8Error_none valid
    rw [outputLoop.eq_def, decodeFrom_utf8]
    split
    · rw [validText_utf8, String.ofList_toList]
    · next error =>
      rw [valid] at error
      cases error
  | case2 text bs e error none_ =>
    exfalso
    cases bad : e.errorLen with
    | none =>
      obtain ⟨s, some_, -⟩ := broken_end (utf8Error_some error) bad
      rw [none_] at some_
      cases some_
    | some n =>
      obtain ⟨s, some_, -⟩ := broken_goes (utf8Error_some error) bad
      rw [none_] at some_
      cases some_
  | case3 text bs e error valid taken n bad ih =>
    obtain ⟨s, some_, decoded⟩ := broken_goes (utf8Error_some error) bad
    obtain rfl : valid = s := Option.some.inj (taken.symm.trans some_)
    rw [outputLoop.eq_def, decoded]
    split
    · next valid' =>
      rw [error] at valid'
      cases valid'
    · next e' error' =>
      obtain rfl : e = e' := Option.some.inj (error.symm.trans error')
      rw [taken]
      simp only
      split
      · next n' bad' =>
        obtain rfl : n = n' := Option.some.inj (bad.symm.trans bad')
        rw [ih, ofList_append, ofList_replacement, String.append_assoc, String.append_assoc]
      · next bad' =>
        rw [bad] at bad'
        cases bad'
  | case4 text bs e error valid taken bad =>
    obtain ⟨s, some_, decoded, -⟩ := broken_end (utf8Error_some error) bad
    obtain rfl : valid = s := Option.some.inj (taken.symm.trans some_)
    rw [outputLoop.eq_def, decoded]
    split
    · next valid' =>
      rw [error] at valid'
      cases valid'
    · next e' error' =>
      obtain rfl : e = e' := Option.some.inj (error.symm.trans error')
      rw [taken]
      simp only
      split
      · next n' bad' =>
        rw [bad] at bad'
        cases bad'
      · rw [String.ofList_toList]

/-- Replacing part for part is what the decoder does, with the end. -/
theorem utf8Lossy_eq (bs : Bytes) : utf8Lossy bs = String.ofList (lossy bs) := by
  induction bs using utf8Lossy.induct with
  | case1 bs valid =>
    obtain ⟨s, rfl⟩ := utf8Error_none valid
    have text : lossy (utf8 s) = s.toList := by rw [lossy_of_settled (by rw [decodeFrom_utf8]), decodeFrom_utf8]
    rw [utf8Lossy.eq_def, text]
    split
    · rw [validText_utf8, String.ofList_toList]
    · next error =>
      rw [valid] at error
      cases error
  | case2 bs e error bad =>
    obtain ⟨s, some_, decoded, -, waits⟩ := broken_end (utf8Error_some error) bad
    have text : lossy bs = s.toList ++ [replacement] := by rw [lossy, decoded, lossyEnd, if_neg waits]
    rw [utf8Lossy.eq_def, text, ofList_append]
    split
    · next valid =>
      rw [valid] at error
      cases error
    · next e' error' =>
      obtain rfl : e = e' := Option.some.inj (error.symm.trans error')
      split
      · rw [validText, some_, Option.getD_some]
        rfl
      · next n bad' =>
        rw [bad] at bad'
        cases bad'
  | case3 bs e error n bad ih =>
    obtain ⟨s, some_, decoded⟩ := broken_goes (utf8Error_some error) bad
    have text : lossy bs = s.toList ++ replacement :: lossy (bs.drop (e.validUpTo + n)) := by
      rw [lossy, decoded, List.append_assoc, List.cons_append]
      rfl
    rw [utf8Lossy.eq_def, text, ofList_append, ofList_replacement]
    split
    · next valid =>
      rw [valid] at error
      cases error
    · next e' error' =>
      obtain rfl : e = e' := Option.some.inj (error.symm.trans error')
      split
      · next bad' =>
        rw [bad] at bad'
        cases bad'
      · next n' bad' =>
        obtain rfl : n = n' := Option.some.inj (bad.symm.trans bad')
        rw [ih, validText, some_, Option.getD_some, String.append_assoc]

/-! ## A chunk after the other -/

/-- What is left of bytes waits. -/
theorem waits_decoded (bs : Bytes) : Waits (decodeFrom [] bs).2 := by
  induction "", bs using decodeLoop.induct with
  | case1 out bs valid =>
    obtain ⟨s, rfl⟩ := utf8Error_none valid
    rw [decodeFrom_utf8]
    rfl
  | case2 out bs e error bad =>
    obtain ⟨s, -, decoded, waits, -⟩ := broken_end (utf8Error_some error) bad
    rw [decoded]
    exact waits
  | case3 out bs e error n bad ih =>
    obtain ⟨s, -, decoded⟩ := broken_goes (utf8Error_some error) bad
    rw [decoded]
    exact ih

/-- One chunk, when the start of a character waits. -/
theorem decodeChunk_eq (carry bytes : Bytes) :
    decodeChunk carry bytes = (String.ofList (decodeFrom [] (carry ++ bytes)).1, (decodeFrom [] (carry ++ bytes)).2) := by
  rw [decodeChunk, decodeLoop_eq, String.empty_append]

theorem decodeOutput_eq (pending chunk : Bytes) : decodeOutput pending chunk = some (decodeChunk pending chunk) := by
  rw [decodeOutput, outputLoop_eq, decodeChunk, decodeLoop_eq]

/-- The decoder by bytes is this one. -/
theorem decodeChunk_waits (waits : Waits carry) : decodeChunk carry bytes = Docker.decodeChunk carry bytes := by
  have same : decodeFrom [] (carry ++ bytes) = decodeFrom carry bytes := by rw [decodeFrom_append, waits, List.nil_append]
  rw [decodeChunk_eq, same]
  rfl

/-- The text of the bytes is that of the next chunk, and that of the rest with what waits. -/
theorem lossy_chunk (bs rest : Bytes) : lossy (bs ++ rest) = (decodeFrom [] bs).1 ++ lossy ((decodeFrom [] bs).2 ++ rest) := by
  have waits := waits_decoded bs
  have behind : decodeFrom [] ((decodeFrom [] bs).2 ++ rest) = decodeFrom (decodeFrom [] bs).2 rest := by
    rw [decodeFrom_append, waits, List.nil_append]
  rw [lossy, decodeFrom_append, lossy, behind, List.append_assoc]

theorem join_piece (text : String) (later : List String) :
    String.join (if text.isEmpty then later else text :: later) = text ++ String.join later := by
  split
  · next blank => rw [String.isEmpty_iff.mp blank, String.empty_append]
  · rw [String.join_cons]

theorem join_end (carry : Bytes) : String.join (if carry.isEmpty then [] else [utf8Lossy carry]) = utf8Lossy carry := by
  split
  · next blank =>
    rw [List.isEmpty_iff.mp blank, utf8Lossy_eq]
    rfl
  · rw [String.join_cons, String.join_nil, String.append_empty]

theorem utf8Lossy_chunk (bs rest : Bytes) :
    utf8Lossy (bs ++ rest) = String.ofList (decodeFrom [] bs).1 ++ utf8Lossy ((decodeFrom [] bs).2 ++ rest) := by
  rw [utf8Lossy_eq, utf8Lossy_eq, lossy_chunk, String.ofList_append]

theorem buildTexts_lossy (carry : Bytes) (chunks : List Bytes) :
    String.join (buildTexts carry chunks) = utf8Lossy (carry ++ chunks.flatten) := by
  induction chunks generalizing carry with
  | nil => rw [buildTexts, join_end, List.flatten_nil, List.append_nil]
  | cons chunk chunks ih =>
    rw [buildTexts, join_piece, ih, decodeChunk_eq, List.flatten_cons, ← List.append_assoc, utf8Lossy_chunk (carry ++ chunk)]

theorem sessionTexts_lossy (pending : Bytes) (chunks : List Bytes) :
    (sessionTexts pending chunks).map String.join = some (utf8Lossy (pending ++ chunks.flatten)) := by
  induction chunks generalizing pending with
  | nil => rw [sessionTexts, Option.map_some, join_end, List.flatten_nil, List.append_nil]
  | cons chunk chunks ih =>
    obtain ⟨later, read, joined⟩ := Option.map_eq_some_iff.mp (ih (decodeChunk pending chunk).2)
    have whole : sessionTexts pending (chunk :: chunks) =
        some (if (decodeChunk pending chunk).1.isEmpty then later else (decodeChunk pending chunk).1 :: later) := by
      rw [sessionTexts, decodeOutput_eq]
      show (sessionTexts (decodeChunk pending chunk).2 chunks >>= _) = _
      rw [read]
      rfl
    rw [whole, Option.map_some, join_piece, joined, decodeChunk_eq, List.flatten_cons, ← List.append_assoc,
      utf8Lossy_chunk (pending ++ chunk)]

/-- However a stream is cut, a decoder puts out the text of all its bytes. -/
theorem streamed (chunks : List Bytes) :
    String.join (buildTexts [] chunks) = utf8Lossy chunks.flatten ∧
      (sessionTexts [] chunks).map String.join = some (utf8Lossy chunks.flatten) :=
  ⟨buildTexts_lossy [] chunks, sessionTexts_lossy [] chunks⟩

end

end Harpoon.Streams
