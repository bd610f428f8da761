import Scriptlet.Proofs.Dump.Forest
import Scriptlet.Text.Quoted

/-!
# Quoted texts can be read back

`quoted_append_inj`: the quoted text of a string determines the string, whatever comes after the closing quote.  It is
read one character at a time (`unquoteChar_quotedChar`), and no character between the quotes is written with a quote in
front or with a line feed.
-/

namespace Scriptlet.Text

/-! ### Hexadecimal digits -/

/-- The value of a hexadecimal digit in lower case. -/
def hexDigitValue (c : Char) : Nat := if c.isDigit then c.toNat - '0'.toNat else c.toNat - 'a'.toNat + 10

/-- The number that hexadecimal digits stand for, the first digit being the greatest. -/
def hexValue (ds : List Char) : Nat := ds.foldl (fun n c => 16 * n + hexDigitValue c) 0

private theorem digitChar_spec :
    ∀ d < 16, hexDigitValue d.digitChar = d ∧ d.digitChar ≠ '\x7d' ∧ d.digitChar ≠ '\n' := by
  decide

private theorem hexValue_toDigits (n : Nat) : hexValue (Nat.toDigits 16 n) = n := by
  induction n using Nat.strongRecOn with
  | ind n ih =>
    rw [Nat.toDigits_eq_if (by decide)]
    split
    · next hlt => exact (Nat.zero_add _).trans (digitChar_spec n hlt).1
    · have hdiv : hexValue (Nat.toDigits 16 (n / 16)) = n / 16 := ih (n / 16) (by omega)
      have hmod : hexDigitValue (n % 16).digitChar = n % 16 := (digitChar_spec _ (by omega)).1
      have happend : hexValue (Nat.toDigits 16 (n / 16) ++ [(n % 16).digitChar]) =
          16 * hexValue (Nat.toDigits 16 (n / 16)) + hexDigitValue (n % 16).digitChar := by
        simp [hexValue]
      rw [happend, hdiv, hmod]
      omega

private theorem ne_of_mem_hexDigits {n : Nat} {c : Char} (h : c ∈ Nat.toDigits 16 n) : c ≠ '\x7d' ∧ c ≠ '\n' := by
  induction n using Nat.strongRecOn with
  | ind n ih =>
    rw [Nat.toDigits_eq_if (by decide)] at h
    split at h
    · next hlt =>
      rw [List.mem_singleton.1 h]
      exact (digitChar_spec n hlt).2
    · rcases List.mem_append.1 h with hhigh | hlow
      · exact ih (n / 16) (by omega) hhigh
      · rw [List.mem_singleton.1 hlow]
        exact (digitChar_spec _ (by omega)).2

/-! ### Characters -/

/-- The character that a letter after a backslash stands for. -/
def unescaped : Char → Char
  | 'n' => '\n'
  | 'r' => '\r'
  | 't' => '\t'
  | '0' => '\x00'
  | c => c

/-- Reads a character between double quotes, and gives what comes after it. -/
def unquoteChar : List Char → Option (Char × List Char)
  | [] => none
  | '\\' :: 'u' :: '\x7b' :: rest =>
    some (Char.ofNat (hexValue (rest.takeWhile (· ≠ '\x7d'))), (rest.dropWhile (· ≠ '\x7d')).tail)
  | '\\' :: c :: rest => some (unescaped c, rest)
  | c :: rest => some (c, rest)

private theorem toList_codePointEscape (c : Char) :
    (codePointEscape c).toList = '\\' :: 'u' :: '\x7b' :: (Nat.toDigits 16 c.toNat ++ ['\x7d']) := by
  simp [codePointEscape]

private theorem unquoteChar_codePointEscape (c : Char) (rest : List Char) :
    unquoteChar ((codePointEscape c).toList ++ rest) = some (c, rest) := by
  have hdigits : ∀ d ∈ Nat.toDigits 16 c.toNat, decide (d ≠ '\x7d') = true := fun d hd =>
    decide_eq_true (ne_of_mem_hexDigits hd).1
  rw [toList_codePointEscape]
  simp only [List.cons_append, List.append_assoc, unquoteChar]
  rw [List.takeWhile_append_of_pos hdigits, List.dropWhile_append_of_pos hdigits]
  simp [hexValue_toDigits]

private theorem unquoteChar_of_ne {c : Char} (h : c ≠ '\\') (rest : List Char) :
    unquoteChar (c :: rest) = some (c, rest) := by
  unfold unquoteChar
  split
  · next heq => cases heq
  · next heq => exact absurd (List.cons.inj heq).1 h
  · next heq => exact absurd (List.cons.inj heq).1 h
  · next heq =>
    cases heq
    rfl

/-- A character is read as it is written between quotes. -/
theorem unquoteChar_quotedChar (c : Char) (rest : List Char) :
    unquoteChar ((quotedChar c).toList ++ rest) = some (c, rest) := by
  unfold quotedChar
  split
  · rfl
  · rfl
  · rfl
  · rfl
  · rfl
  · rfl
  · next hbackslash _ _ _ _ =>
    split
    · exact unquoteChar_codePointEscape c rest
    · rw [Char.toString_eq_singleton, String.toList_singleton]
      exact unquoteChar_of_ne hbackslash rest

/-- What is written for a character does not begin with a quote, and is on one line. -/
private theorem quotedChar_shape (c : Char) :
    ∃ x xs, (quotedChar c).toList = x :: xs ∧ x ≠ '"' ∧ '\n' ∉ x :: xs := by
  unfold quotedChar
  split
  · exact ⟨_, _, rfl, by decide, by decide⟩
  · exact ⟨_, _, rfl, by decide, by decide⟩
  · exact ⟨_, _, rfl, by decide, by decide⟩
  · exact ⟨_, _, rfl, by decide, by decide⟩
  · exact ⟨_, _, rfl, by decide, by decide⟩
  · exact ⟨_, _, rfl, by decide, by decide⟩
  · next hquote _ hnewline _ _ _ =>
    split
    · have hdigits : '\n' ∉ Nat.toDigits 16 c.toNat := fun h => (ne_of_mem_hexDigits h).2 rfl
      exact ⟨_, _, toList_codePointEscape c, by decide, by simpa using hdigits⟩
    · exact ⟨c, [], by simp, hquote, fun h => hnewline (List.mem_singleton.1 h).symm⟩

/-! ### Strings -/

/-- The characters between double quotes. -/
def quotedChars (cs : List Char) : List Char := cs.flatMap fun c => (quotedChar c).toList

theorem toList_quoted (s : String) : (quoted s).toList = '"' :: (quotedChars s.toList ++ ['"']) := by
  simp [quoted, quotedChars, List.flatMap_map, String.toList_join]

private theorem quotedChars_ne {cs as bs : List Char} {c : Char} :
    quotedChars (c :: cs) ++ as ≠ '"' :: bs := by
  obtain ⟨x, xs, hchar, hx, -⟩ := quotedChar_shape c
  rw [quotedChars, List.flatMap_cons, hchar]
  exact fun h => hx (List.cons.inj h).1

private theorem quotedChars_append_inj {cs ds as bs : List Char}
    (h : quotedChars cs ++ '"' :: as = quotedChars ds ++ '"' :: bs) : cs = ds ∧ as = bs := by
  induction cs generalizing ds with
  | nil =>
    cases ds with
    | nil => exact ⟨rfl, List.tail_eq_of_cons_eq h⟩
    | cons d ds => exact absurd h.symm quotedChars_ne
  | cons c cs ih =>
    cases ds with
    | nil => exact absurd h quotedChars_ne
    | cons d ds =>
      simp only [quotedChars, List.flatMap_cons, List.append_assoc] at h
      have hread := congrArg unquoteChar h
      rw [unquoteChar_quotedChar, unquoteChar_quotedChar] at hread
      obtain ⟨rfl, hrest⟩ := Prod.mk.inj (Option.some.inj hread)
      obtain ⟨rfl, hafter⟩ := ih hrest
      exact ⟨rfl, hafter⟩

/-- The quoted text of a string determines the string, also where more comes after it. -/
theorem quoted_append_inj {s t : String} {as bs : List Char}
    (h : (quoted s).toList ++ as = (quoted t).toList ++ bs) : s = t ∧ as = bs := by
  simp only [toList_quoted, List.cons_append, List.append_assoc] at h
  obtain ⟨hchars, hrest⟩ := quotedChars_append_inj (List.tail_eq_of_cons_eq h)
  exact ⟨String.toList_inj.1 hchars, hrest⟩

/-- A quoted text is on one line. -/
theorem newline_notMem_quoted (s : String) : '\n' ∉ (quoted s).toList := by
  have hchars : '\n' ∉ quotedChars s.toList := by
    intro h
    obtain ⟨c, -, hc⟩ := List.mem_flatMap.1 h
    obtain ⟨x, xs, hchar, -, hnewline⟩ := quotedChar_shape c
    exact hnewline (hchar ▸ hc)
  rw [toList_quoted]
  simpa using hchars

end Scriptlet.Text
