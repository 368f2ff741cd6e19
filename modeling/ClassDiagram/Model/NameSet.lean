/-!
# Sets of names

A finite set of names, kept as the strictly ascending list of its members, so that equal sets are
equal values and a set is written in one order only.

* `mem_insert`, `mem_erase`, `mem_ofList`: what the operations do to membership.
* `ext`: a set is determined by its members.
-/

namespace ClassDiagram

/-- A finite set of names, listed in ascending order. -/
structure NameSet where
  toList : List String
  ascending : toList.Pairwise (· < ·)
  deriving DecidableEq

namespace NameSet

instance : Membership String NameSet where
  mem names name := name ∈ names.toList

theorem mem_def {names : NameSet} {name : String} : name ∈ names ↔ name ∈ names.toList := Iff.rfl

instance (name : String) (names : NameSet) : Decidable (name ∈ names) :=
  inferInstanceAs (Decidable (name ∈ names.toList))

/-- No names. -/
def empty : NameSet := ⟨[], .nil⟩

instance : EmptyCollection NameSet := ⟨empty⟩

instance : Inhabited NameSet := ⟨empty⟩

/-- Puts a name at its place in an ascending list, once. -/
def place (name : String) : List String → List String
  | [] => [name]
  | first :: rest =>
    if name < first then name :: first :: rest
    else if name = first then first :: rest
    else first :: place name rest

theorem mem_place {name other : String} {names : List String} :
    other ∈ place name names ↔ other = name ∨ other ∈ names := by
  induction names with
  | nil => simp [place]
  | cons first rest ih =>
    rw [place]
    split
    · simp
    · split
      · rename_i _ h
        simp [h]
      · simp only [List.mem_cons, ih]
        grind

theorem ascending_place {name : String} {names : List String}
    (h : names.Pairwise (· < ·)) : (place name names).Pairwise (· < ·) := by
  induction names with
  | nil => simp [place]
  | cons first rest ih =>
    obtain ⟨hfirst, hrest⟩ := List.pairwise_cons.1 h
    rw [place]
    split
    · rename_i hlt
      refine List.pairwise_cons.2 ⟨fun other hother => ?_, h⟩
      rcases List.mem_cons.1 hother with rfl | hother
      · exact hlt
      · exact String.lt_trans hlt (hfirst other hother)
    · split
      · exact h
      · refine List.pairwise_cons.2 ⟨fun other hother => ?_, ih hrest⟩
        rcases mem_place.1 hother with rfl | hother
        · grind
        · exact hfirst other hother

/-- Adds a name. -/
def insert (name : String) (names : NameSet) : NameSet :=
  ⟨place name names.toList, ascending_place names.ascending⟩

/-- Removes a name. -/
def erase (name : String) (names : NameSet) : NameSet :=
  ⟨names.toList.filter (· != name), names.ascending.filter _⟩

/-- The set of the names in a list. -/
def ofList (names : List String) : NameSet := names.foldr insert ∅

/-! ### Membership -/

@[simp] theorem not_mem_empty (name : String) : ¬ name ∈ (∅ : NameSet) :=
  List.not_mem_nil

@[simp] theorem mem_insert {name other : String} {names : NameSet} :
    other ∈ names.insert name ↔ other = name ∨ other ∈ names :=
  mem_place

@[simp] theorem mem_erase {name other : String} {names : NameSet} :
    other ∈ names.erase name ↔ other ∈ names ∧ other ≠ name := by
  simp [mem_def, erase]

@[simp] theorem mem_ofList {name : String} {names : List String} :
    name ∈ ofList names ↔ name ∈ names := by
  induction names with
  | nil => simp [ofList]
  | cons first rest ih =>
    have hcons : ofList (first :: rest) = (ofList rest).insert first := rfl
    rw [hcons, mem_insert, ih, List.mem_cons]

/-- Two ascending lists with the same members are equal. -/
theorem eq_of_ascending {a b : List String} (ha : a.Pairwise (· < ·)) (hb : b.Pairwise (· < ·))
    (h : ∀ name, name ∈ a ↔ name ∈ b) : a = b := by
  induction a generalizing b with
  | nil =>
    cases b with
    | nil => rfl
    | cons y ys => exact absurd ((h y).2 (by simp)) (by simp)
  | cons x xs ih =>
    cases b with
    | nil => exact absurd ((h x).1 (by simp)) (by simp)
    | cons y ys =>
      obtain ⟨hx, hxs⟩ := List.pairwise_cons.1 ha
      obtain ⟨hy, hys⟩ := List.pairwise_cons.1 hb
      have hxy : x = y := by
        have h1 : x = y ∨ x ∈ ys := by simpa using (h x).1 (by simp)
        have h2 : y = x ∨ y ∈ xs := by simpa using (h y).2 (by simp)
        rcases h1 with h1 | h1
        · exact h1
        · rcases h2 with h2 | h2
          · exact h2.symm
          · exact absurd (hx y h2) (String.lt_asymm (hy x h1))
      subst hxy
      congr 1
      refine ih hxs hys fun name => ?_
      have := h name
      simp only [List.mem_cons] at this
      constructor
      · intro hn
        rcases this.1 (.inr hn) with rfl | hn'
        · exact absurd (hx _ hn) (String.lt_irrefl _)
        · exact hn'
      · intro hn
        rcases this.2 (.inr hn) with rfl | hn'
        · exact absurd (hy _ hn) (String.lt_irrefl _)
        · exact hn'

@[ext] theorem ext {a b : NameSet} (h : ∀ name, name ∈ a ↔ name ∈ b) : a = b := by
  obtain ⟨la, ha⟩ := a
  obtain ⟨lb, hb⟩ := b
  have : la = lb := eq_of_ascending ha hb h
  subst this
  rfl

end NameSet

end ClassDiagram
