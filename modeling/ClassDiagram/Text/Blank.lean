import ClassDiagram.Text.Basic

/-!
# Blanks

The blank characters, trimming them off the ends of a text, and the words between them.

* `strip` and `words` never make a text longer: `length_strip_le`, `length_le_of_mem_words`.
-/

namespace ClassDiagram

namespace Text

/-- The characters that separate words: the controls U+0009 to U+000D and U+001C to U+001F,
the space, and the space separators of every script. -/
def isBlank (c : Char) : Bool :=
  let n := c.toNat
  (9 ≤ n && n ≤ 13) || (28 ≤ n && n ≤ 32) || n == 0x85 || n == 0xA0 || n == 0x1680 ||
    (0x2000 ≤ n && n ≤ 0x200A) || n == 0x2028 || n == 0x2029 || n == 0x202F || n == 0x205F ||
    n == 0x3000

/-- Drops the blanks at the front. -/
def stripStart (text : Text) : Text := text.dropWhile isBlank

/-- Drops the blanks at the end. -/
def stripEnd (text : Text) : Text := (text.reverse.dropWhile isBlank).reverse

/-- Drops the blanks at both ends. -/
def strip (text : Text) : Text := stripEnd (stripStart text)

/-- The maximal runs without a blank, in order. -/
def words (text : Text) : List Text := (cut isBlank text).filter (fun word => !word.isEmpty)

/-- The words, with one space between each two of them. -/
def collapse (text : Text) : Text := join [' '] (words text)

/-- The blank form of a character: a line break stays, all else becomes a space. -/
def hideChar (c : Char) : Char := if c = '\n' then '\n' else ' '

/-- Replaces every character but the line breaks by a space. -/
def hide (text : Text) : Text := text.map hideChar

/-- Hides the characters from `start` up to `stop`. -/
def hideRange (text : Text) (start stop : Nat) : Text :=
  if start < stop then
    text.take start ++ hide ((text.take stop).drop start) ++ text.drop stop
  else text

@[simp] theorem length_hide (text : Text) : (hide text).length = text.length := by
  simp [hide]

theorem length_stripStart_le (text : Text) : (stripStart text).length ≤ text.length :=
  (List.dropWhile_sublist _).length_le

theorem length_stripEnd_le (text : Text) : (stripEnd text).length ≤ text.length := by
  have h := (List.dropWhile_sublist isBlank (l := text.reverse)).length_le
  simpa [stripEnd] using h

theorem length_strip_le (text : Text) : (strip text).length ≤ text.length :=
  Nat.le_trans (length_stripEnd_le _) (length_stripStart_le _)

theorem length_le_of_mem_attach {front : Text} {segments : List Text} {n : Nat}
    (hfront : ∀ s ∈ segments, front.length + s.length ≤ n) (hn : front.length ≤ n) :
    ∀ s ∈ attach front segments, s.length ≤ n := by
  cases segments with
  | nil => simpa [attach] using hn
  | cons first rest =>
    intro s hs
    rcases List.mem_cons.1 hs with rfl | hs
    · simpa using hfront first (by simp)
    · have := hfront s (by simp [hs])
      omega

theorem length_le_of_mem_cut {separates : Char → Bool} {text : Text} :
    ∀ s ∈ cut separates text, s.length ≤ text.length := by
  induction text with
  | nil => simp [cut]
  | cons c rest ih =>
    intro s hs
    rw [cut] at hs
    split at hs
    · rcases List.mem_cons.1 hs with rfl | hs
      · simp
      · exact Nat.le_succ_of_le (ih s hs)
    · refine length_le_of_mem_attach (fun s hs => ?_) (by simp) s hs
      have := ih s hs
      simp only [List.length_cons, List.length_nil]
      omega

theorem length_le_of_mem_words {text : Text} : ∀ w ∈ words text, w.length ≤ text.length :=
  fun w hw => length_le_of_mem_cut w (List.mem_filter.1 hw).1

end Text

end ClassDiagram
