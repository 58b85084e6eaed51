import Mathlib.Data.List.DropRight
import SwaggerClient.Document.Source

/-!
# Places of errors

A place is found by counting line feeds forwards, and the byte it points at by adding up whole lines
again.  The two agree on every byte that is no line feed, and whatever the line and the column are,
the byte that is pointed at lies in the text.
-/

namespace SwaggerClient

namespace LineColumn

variable {bytes rest : List UInt8}

/-! ## From bytes to lines and columns -/

/-- The line of a byte: one more than the line feeds before it. -/
def lineOf (bytes : List UInt8) (i : Nat) : Nat :=
  1 + (bytes.take i).count lineFeed

/-- The column of a byte: the number of bytes from the start of its line up to the byte itself. -/
def columnOf (bytes : List UInt8) (i : Nat) : Nat :=
  ((bytes.take (i + 1)).rtakeWhile (· != lineFeed)).length

/-- The place behind a text is found from its line feeds and the bytes behind the last of them. -/
theorem ofPrefixBytes_eq (bytes : List UInt8) :
    ofPrefixBytes bytes =
      ⟨1 + bytes.count lineFeed, (bytes.rtakeWhile (· != lineFeed)).length⟩ := by
  induction bytes using List.reverseRecOn with
  | nil => rfl
  | append_singleton bytes byte ih =>
    have hstep : ofPrefixBytes (bytes ++ [byte]) =
        if byte = lineFeed then ⟨(ofPrefixBytes bytes).line + 1, 0⟩
        else ⟨(ofPrefixBytes bytes).line, (ofPrefixBytes bytes).column + 1⟩ := by
      simp [ofPrefixBytes]
    rw [hstep, ih]
    by_cases h : byte = lineFeed
    · simp [h, Nat.add_assoc]
    · simp [h, List.rtakeWhile_concat_pos]

/-! ## From lines and columns to bytes -/

/-- A line starts behind the line feed that ends the line before it. -/
theorem lineStart_append_lineFeed (bytes rest : List UInt8) :
    lineStart (bytes.count lineFeed + 1) (bytes ++ lineFeed :: rest) = bytes.length + 1 := by
  induction bytes with
  | nil => simp [lineStart]
  | cons byte bytes ih =>
    by_cases h : byte = lineFeed
    · simp [lineStart, h, ih]
    · simp [lineStart, h, ih]

/-- The line on which a text ends starts where its last bytes without a line feed do. -/
theorem lineStart_add_length (bytes rest : List UInt8) :
    lineStart (bytes.count lineFeed) (bytes ++ rest)
      + (bytes.rtakeWhile (· != lineFeed)).length = bytes.length := by
  induction bytes using List.reverseRecOn generalizing rest with
  | nil => simp [lineStart]
  | append_singleton bytes byte ih =>
    by_cases h : byte = lineFeed
    · -- A new line starts behind the byte, and nothing is on it yet.
      simpa [h] using lineStart_append_lineFeed bytes rest
    · have hline := ih (byte :: rest)
      simp [h, List.rtakeWhile_concat_pos]
      omega

/-- A byte that is no line feed ends no line. -/
theorem lineOf_eq {i : Nat} (hi : i < bytes.length) (h : bytes[i] ≠ lineFeed) :
    lineOf bytes i = 1 + (bytes.take (i + 1)).count lineFeed := by
  rw [lineOf, List.take_succ_eq_append_getElem hi, List.count_append,
    List.count_singleton, if_neg (by simpa using h), Nat.add_zero]

theorem columnOf_pos {i : Nat} (hi : i < bytes.length) (h : bytes[i] ≠ lineFeed) :
    0 < columnOf bytes i := by
  rw [columnOf, List.take_succ_eq_append_getElem hi,
    List.rtakeWhile_concat_pos _ _ _ (by simpa using h), List.length_append]
  exact Nat.succ_pos _

/-- The place behind a byte that is no line feed is its line and column. -/
theorem ofOffset_eq {i : Nat} (hi : i < bytes.length) (h : bytes[i] ≠ lineFeed) :
    ofOffset bytes (i + 1) = ⟨lineOf bytes i, columnOf bytes i⟩ := by
  rw [ofOffset, ofPrefixBytes_eq, ← lineOf_eq hi h, columnOf]

/-- The line and the column of a byte that is no line feed point at it. -/
theorem offset?_eq {i : Nat} (hi : i < bytes.length) (h : bytes[i] ≠ lineFeed) :
    offset? bytes ⟨lineOf bytes i, columnOf bytes i⟩ = some i := by
  have hlines : lineOf bytes i - 1 = (bytes.take (i + 1)).count lineFeed := by
    rw [lineOf_eq hi h]
    omega
  have hstart : lineStart (lineOf bytes i - 1) bytes + columnOf bytes i = i + 1 := by
    have hbytes := lineStart_add_length (bytes.take (i + 1)) (bytes.drop (i + 1))
    rw [List.take_append_drop, List.length_take, ← hlines, min_eq_left hi] at hbytes
    exact hbytes
  have hcolumn := columnOf_pos hi h
  have hline : lineOf bytes i ≠ 0 := by
    unfold lineOf
    omega
  simp only [offset?, hline, if_false, Option.some.injEq]
  omega

/-- Every line and column point into a text that is not empty. -/
theorem exists_offset? (hne : bytes ≠ []) {place : LineColumn} (h : 1 ≤ place.line) :
    ∃ offset < bytes.length, place.offset? bytes = some offset := by
  have hlength := List.length_pos_iff.2 hne
  have hline : place.line ≠ 0 := by omega
  refine ⟨min (lineStart (place.line - 1) bytes + (place.column - 1)) (bytes.length - 1), ?_, ?_⟩
  · omega
  · simp only [offset?, hline, if_false]

theorem one_le_line_ofOffset (bytes : List UInt8) (offset : Nat) :
    1 ≤ (ofOffset bytes offset).line := by
  rw [ofOffset, ofPrefixBytes_eq]
  exact Nat.le_add_right _ _

end LineColumn

/-! ## Texts -/

/-- A list made of the bytes of an array from a position on is as long as they are many. -/
theorem length_toList_loop (bs : ByteArray) (i : Nat) (bytes : List UInt8) :
    (ByteArray.toList.loop bs i bytes).length = bytes.length + (bs.size - i) := by
  fun_induction ByteArray.toList.loop bs i bytes with
  | case1 i bytes h ih =>
    rw [ih, List.length_cons]
    omega
  | case2 i bytes h =>
    rw [List.length_reverse]
    omega

namespace SourceText

open LineColumn

variable (source : SourceText)

theorem length_bytes : source.bytes.length = source.text.utf8ByteSize := by
  rw [bytes, ByteArray.toList, length_toList_loop]
  simp

theorem bytes_ne_nil (h : source.text ≠ "") : source.bytes ≠ [] := by
  rw [← List.length_pos_iff, length_bytes]
  exact Nat.pos_of_ne_zero (by simpa using h)

/-- Error positions map back to the right byte.  Behind a byte that is no line feed the place of an
error is the line and the column of the byte, and they point back at it.  Every line from the first
one on and every column, in the text or not, point at a byte of the text, and so the error of a
fault is marked with one byte of the text. -/
theorem positions_map_back (h : source.text ≠ "") :
    (∀ i, ∀ hi : i < source.bytes.length, source.bytes[i] ≠ lineFeed →
      ofOffset source.bytes (i + 1) = ⟨lineOf source.bytes i, columnOf source.bytes i⟩ ∧
      offset? source.bytes ⟨lineOf source.bytes i, columnOf source.bytes i⟩ = some i) ∧
    (∀ place : LineColumn, 1 ≤ place.line →
      ∃ offset < source.bytes.length, place.offset? source.bytes = some offset) ∧
    ∀ fault : Fault, ∃ offset < source.bytes.length,
      source.undecodable fault = .undecodable fault.reason
        (ofOffset source.bytes (fault.offset.getD 0)) (some ⟨offset, 1⟩) := by
  have hne := source.bytes_ne_nil h
  refine ⟨fun i hi hbyte => ⟨ofOffset_eq hi hbyte, offset?_eq hi hbyte⟩,
    fun place hline => exists_offset? hne hline, fun fault => ?_⟩
  have hline := one_le_line_ofOffset source.bytes (fault.offset.getD 0)
  obtain ⟨offset, hoffset, hplace⟩ := exists_offset? hne hline
  refine ⟨offset, hoffset, ?_⟩
  rw [undecodable, hplace]
  rfl

/-- A fault behind a character of two bytes, on the third line. -/
theorem positions_map_back_accented :
    let source : SourceText := ⟨"[\n\n\"é\", x]", "list.json"⟩
    source.text ≠ "" ∧ ofOffset source.bytes 10 = ⟨3, 7⟩ ∧
      offset? source.bytes ⟨3, 7⟩ = some 9 := by
  intro source
  have hbytes : source.bytes = [91, 10, 10, 34, 195, 169, 34, 44, 32, 120, 93] := by decide +kernel
  have hne : source.text ≠ "" := by decide
  have hplace : lineOf source.bytes 9 = 3 ∧ columnOf source.bytes 9 = 7 := by
    rw [hbytes]
    decide
  obtain ⟨hback, -, -⟩ := source.positions_map_back hne
  have hat := hback 9 (by simp [hbytes]) (by simp [hbytes, lineFeed])
  rw [hplace.1, hplace.2] at hat
  exact ⟨hne, hat⟩

end SourceText

end SwaggerClient
