/-
# The lines of a text and of its bytes

A dialogue reads bytes and cuts them after every byte of a newline.  In UTF-8
this byte stands for nothing but a newline, so cutting the bytes of a text and
then decoding what is between the cuts gives the lines of the text, and each of
them is text (`inputLines_toUTF8`).
-/
import Scriptlet.CommandLine

namespace Scriptlet

namespace CommandLine

/-! ## Cutting a list -/

section

variable {α : Type} {p : α → Bool}

theorem flatten_splitAfter (p : α → Bool) (as : List α) : (splitAfter p as).flatten = as := by
  induction as with
  | nil => rfl
  | cons a as ih =>
    rw [splitAfter]
    split
    · rw [List.flatten_cons, ih, List.singleton_append]
    · split
      case h_1 none =>
        rw [none] at ih
        rw [← ih]
        rfl
      case h_2 first others cut =>
        rw [cut] at ih
        rw [← ih]
        rfl

theorem splitAfter_ends (as : List α) :
    ∀ part ∈ (splitAfter p as).dropLast, ∃ front a, p a ∧ part = front ++ [a] := by
  induction as with
  | nil => exact fun _ none => nomatch none
  | cons a as ih =>
    rw [splitAfter]
    split
    case isTrue here =>
      intro part member
      cases rest : splitAfter p as with
      | nil =>
        rw [rest] at member
        cases member
      | cons first others =>
        rw [rest] at ih member
        rcases List.mem_cons.1 member with rfl | later
        · exact ⟨[], a, here, rfl⟩
        · exact ih part later
    case isFalse =>
      split
      case h_1 => exact fun _ none => nomatch none
      case h_2 first others cut =>
        rw [cut] at ih
        intro part member
        cases others with
        | nil => cases member
        | cons second others =>
          rcases List.mem_cons.1 member with rfl | later
          · obtain ⟨front, b, ends, rfl⟩ := ih first List.mem_cons_self
            exact ⟨a :: front, b, ends, rfl⟩
          · exact ih part (List.mem_cons_of_mem _ later)

/-- Items that the list is not cut after go to the first part. -/
theorem splitAfter_append {front : List α} (some : front ≠ []) (uncut : ∀ a ∈ front, p a = false)
    (as : List α) : splitAfter p (front ++ as) =
      match splitAfter p as with
      | [] => [front]
      | first :: others => (front ++ first) :: others := by
  induction front with
  | nil => exact absurd rfl some
  | cons a front ih =>
    obtain ⟨here, later⟩ := List.forall_mem_cons.1 uncut
    rw [List.cons_append, splitAfter, here, if_neg Bool.false_ne_true]
    cases front with
    | nil =>
      rw [List.nil_append]
      cases splitAfter p as <;> rfl
    | cons b front =>
      rw [ih (List.cons_ne_nil b front) later]
      cases splitAfter p as <;> rfl

end

/-! ## Bytes -/

/-- The bytes that are still to be listed stand behind those that are. -/
theorem toList_loop (bytes : ByteArray) (i : Nat) (before : List UInt8) :
    ByteArray.toList.loop bytes i before = before.reverse ++ bytes.data.toList.drop i := by
  fun_induction ByteArray.toList.loop bytes i before with
  | case1 i before inside ih =>
    have next : bytes.data.toList.drop i = bytes.get! i :: bytes.data.toList.drop (i + 1) := by
      have bound : i < bytes.data.toList.length := inside
      have byte : bytes.get! i = bytes.data.toList[i] := getElem!_pos bytes.data i inside
      rw [List.drop_eq_getElem_cons bound, byte]
    rw [ih, next, List.reverse_cons, List.append_assoc, List.singleton_append]
  | case2 i before outside =>
    have none : bytes.data.toList.drop i = [] := by
      rw [List.drop_eq_nil_iff]
      simpa using outside
    rw [none, List.append_nil]

theorem toList_toUTF8 (text : String) :
    text.toUTF8.toList = text.toList.flatMap String.utf8EncodeChar := by
  have bytes := toList_loop text.toUTF8 0 []
  have encoded : text.toUTF8 = text.toList.utf8Encode := String.utf8Encode_toList.symm
  rw [List.reverse_nil, List.nil_append, List.drop_zero] at bytes
  rw [ByteArray.toList, bytes, encoded, List.utf8Encode, List.data_toByteArray]

theorem decode_encoded (chars : List Char) :
    decode (chars.flatMap String.utf8EncodeChar).toByteArray = .ok (String.ofList chars) := by
  have bytes : (chars.flatMap String.utf8EncodeChar).toByteArray =
      (String.ofList chars).toByteArray := String.toByteArray_ofList.symm
  have valid := (String.ofList chars).isValidUTF8
  unfold decode String.fromUTF8?
  rw [bytes, dif_pos valid]
  rfl

theorem ofNat_ne_newline {n : Nat} (small : n < 256) (other : n ≠ 10) :
    (UInt8.ofNat n == '\n'.toUInt8) = false := by
  rw [beq_eq_false_iff_ne]
  intro same
  have value : n % 256 = 10 := UInt8.toNat_ofNat'.symm.trans (congrArg UInt8.toNat same)
  omega

theorem newline_not_mem_encode {c : Char} (h : c ≠ '\n') :
    ∀ b ∈ String.utf8EncodeChar c, (b == '\n'.toUInt8) = false := by
  have other : c.val.toNat ≠ 10 := fun same => h (Char.toNat_inj.1 same)
  unfold String.utf8EncodeChar
  generalize c.val.toNat = code at other
  intro b member
  dsimp only at member
  -- All bytes but the one of a short character are 128 or more.
  split at member
  case isTrue short =>
    rw [List.mem_singleton.1 member]
    exact ofNat_ne_newline (by omega) other
  case isFalse =>
    split at member
    case isTrue =>
      simp only [List.mem_cons, List.not_mem_nil, or_false] at member
      rcases member with rfl | rfl <;> exact ofNat_ne_newline (by omega) (by omega)
    case isFalse =>
      split at member
      case isTrue =>
        simp only [List.mem_cons, List.not_mem_nil, or_false] at member
        rcases member with rfl | rfl | rfl <;> exact ofNat_ne_newline (by omega) (by omega)
      case isFalse =>
        simp only [List.mem_cons, List.not_mem_nil, or_false] at member
        rcases member with rfl | rfl | rfl | rfl <;>
          exact ofNat_ne_newline (by omega) (by omega)

/-! ## Lines -/

/-- The lines of a text, each with its newline, which the last may lack. -/
def textLines (text : String) : List String :=
  (splitAfter (· == '\n') text.toList).map String.ofList

theorem join_textLines (text : String) : String.join (textLines text) = text := by
  have chars : ∀ parts : List (List Char), (parts.map String.ofList).flatMap String.toList =
      parts.flatten := by
    intro parts
    rw [List.flatMap_map, List.flatMap_def]
    simp only [String.toList_ofList, List.map_id']
  rw [← String.toList_inj, String.toList_join, textLines, chars, flatten_splitAfter]

theorem textLines_ends (text : String) :
    ∀ line ∈ (textLines text).dropLast, ∃ front, line = front ++ "\n" := by
  intro line member
  rw [textLines, ← List.map_dropLast] at member
  obtain ⟨chars, listed, rfl⟩ := List.mem_map.1 member
  obtain ⟨front, c, newline, rfl⟩ := splitAfter_ends _ chars listed
  rw [beq_iff_eq.1 newline]
  exact ⟨String.ofList front, String.ofList_append⟩

theorem splitAfter_encoded (chars : List Char) :
    splitAfter (· == '\n'.toUInt8) (chars.flatMap String.utf8EncodeChar) =
      (splitAfter (· == '\n') chars).map (·.flatMap String.utf8EncodeChar) := by
  induction chars with
  | nil => rfl
  | cons c chars ih =>
    rw [List.flatMap_cons]
    by_cases newline : c = '\n'
    · subst newline
      show splitAfter _ ('\n'.toUInt8 :: chars.flatMap String.utf8EncodeChar) = _
      rw [splitAfter, splitAfter, if_pos (beq_self_eq_true _), if_pos (beq_self_eq_true _), ih]
      rfl
    · rw [splitAfter_append String.utf8EncodeChar_ne_nil (newline_not_mem_encode newline), ih,
        splitAfter,
        if_neg (by simpa using newline)]
      cases splitAfter (· == '\n') chars with
      | nil => simp
      | cons first others => simp

/-- The lines that a dialogue reads of a text are the lines of the text. -/
theorem inputLines_toUTF8 (text : String) :
    inputLines text.toUTF8 = (textLines text).map .ok := by
  unfold inputLines textLines
  rw [toList_toUTF8, splitAfter_encoded, List.map_map, List.map_map]
  exact List.map_congr_left fun line _ => decode_encoded line

end CommandLine

end Scriptlet
