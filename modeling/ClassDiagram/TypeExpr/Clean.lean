import ClassDiagram.Scan.Group
import ClassDiagram.TypeExpr.Dialect

/-!
# Cleaning a type expression

Before a type expression is taken apart, all that names no type is removed: quotes, the signs of
nullability and pointers, dropped words, and the array brackets at the end.

* `length_clean_le`: cleaning never makes an expression longer.
-/

namespace ClassDiagram

namespace Text

/-- Removes quoted text, or with `keep` only the quotes around it. A quote that is never closed
stays. -/
def unquote (keep : Bool) (text : Text) : Text :=
  match text with
  | [] => []
  | c :: rest =>
    -- quotes are paired as they come, and a backslash means nothing here
    if Literal.isQuote c ∧ c ∈ rest then
      (if keep then upTo c rest else []) ++ unquote keep (past c rest)
    else c :: unquote keep rest
termination_by text.length
decreasing_by
  · have := length_past_le c rest
    simp only [List.length_cons]
    omega
  · simp

/-- What stands before array brackets at the end: a bracket, blanks and commas, a bracket. -/
def beforeArray? (text : Text) : Option Text :=
  match text.reverse with
  | ']' :: front =>
    match front.dropWhile (fun c => isBlank c || c == ',') with
    | '[' :: before => some before.reverse
    | _ => none
  | _ => none

theorem length_lt_of_beforeArray? {text before : Text} (h : beforeArray? text = some before) :
    before.length < text.length := by
  unfold beforeArray? at h
  split at h
  · rename_i front hfront
    split at h
    · rename_i rest hrest
      have hlen := (List.dropWhile_sublist (fun c => isBlank c || c == ',') (l := front)).length_le
      have htext : text.length = front.length + 1 := by
        rw [← List.length_reverse, hfront, List.length_cons]
      simp only [Option.some.injEq] at h
      rw [← h, List.length_reverse]
      rw [hrest, List.length_cons] at hlen
      omega
    · simp at h
  · simp at h

/-- Drops array brackets off the end, unless the whole text is one bracketed group. -/
def dropArrays (text : Text) : Text :=
  if isGroup '[' text then text
  else
    match h : beforeArray? text with
    | some before => dropArrays (strip before)
    | none => text
termination_by text.length
decreasing_by exact Nat.lt_of_le_of_lt (length_strip_le before) (length_lt_of_beforeArray? h)

end Text

namespace Dialect

/-- The words between single spaces that are not dropped, joined again. -/
def dropWords (dialect : Dialect) (text : Text) : Text :=
  Text.join [' '] ((text.cut (· == ' ')).filter
    (fun word => !dialect.droppedWords.contains (String.ofList word)))

/-- A type expression without anything that names no type. -/
def clean (dialect : Dialect) (expr : Text) : Text :=
  let unquoted := Text.unquote dialect.readsQuoted expr.strip
  let unsigned := unquoted.filter fun c => !(c == '?' || c == '!' || c == '*')
  (dialect.dropWords unsigned).strip.dropArrays

end Dialect

/-! ### Lengths -/

namespace Text

theorem length_upTo_add_past {c : Char} {text : Text} (h : c ∈ text) :
    (upTo c text).length + (past c text).length + 1 = text.length := by
  induction text with
  | nil => simp at h
  | cons first rest ih =>
    by_cases hc : first = c
    · subst hc
      simp [upTo, past]
    · have hmem : c ∈ rest := by
        rcases List.mem_cons.1 h with rfl | h
        · exact absurd rfl hc
        · exact h
      have := ih hmem
      simp only [upTo, past, List.takeWhile_cons, List.dropWhile_cons] at this ⊢
      simp only [bne_iff_ne, ne_eq, hc, not_false_eq_true, if_true, List.length_cons]
      omega

theorem length_unquote_le (keep : Bool) (text : Text) :
    (unquote keep text).length ≤ text.length := by
  fun_induction unquote keep text with
  | case1 => simp
  | case2 c rest h ih =>
    have := length_upTo_add_past h.2
    simp only [List.length_append, List.length_cons]
    split
    · omega
    · simp only [List.length_nil]
      omega
  | case3 c rest h ih => simpa using ih

theorem length_dropArrays_le (text : Text) : (dropArrays text).length ≤ text.length := by
  fun_induction dropArrays text with
  | case1 => simp
  | case2 text _ before h ih =>
    exact Nat.le_trans ih (Nat.le_of_lt
      (Nat.lt_of_le_of_lt (length_strip_le before) (length_lt_of_beforeArray? h)))
  | case3 => simp

end Text

namespace Dialect

theorem length_dropWords_le (dialect : Dialect) (text : Text) :
    (dialect.dropWords text).length ≤ text.length := by
  rw [dropWords, Text.length_join_blank]
  have := Text.room_filter_le
    (fun word => !dialect.droppedWords.contains (String.ofList word)) (text.cut (· == ' '))
  rw [Text.room_cut] at this
  omega

theorem length_clean_le (dialect : Dialect) (expr : Text) :
    (dialect.clean expr).length ≤ expr.length := by
  refine Nat.le_trans (Text.length_dropArrays_le _) (Nat.le_trans (Text.length_strip_le _)
    (Nat.le_trans (length_dropWords_le _ _) (Nat.le_trans (List.length_filter_le _ _)
      (Nat.le_trans (Text.length_unquote_le _ _) (Text.length_strip_le _)))))

end Dialect

end ClassDiagram
