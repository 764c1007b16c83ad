import FirebaseEmu.Firestore.Names

namespace FirebaseEmu.Firestore
open Lib

/-- A segment of a resource name. -/
def Segment (s : String) : Prop := s ≠ "" ∧ '/' ∉ s.toList

/-- The collection and document segments of a path, in order. -/
def pathOf (pairs : List (String × String)) : List String := pairs.flatMap fun pair => [pair.1, pair.2]

/-- `projects/P/databases/D/documents/` and one or more collection/document pairs, with no
segment empty. -/
def DocumentGrammar (name : String) : Prop :=
  ∃ (project id : String) (pairs : List (String × String)), Segment project ∧ Segment id ∧
    pairs ≠ [] ∧ (∀ pair ∈ pairs, Segment pair.1 ∧ Segment pair.2) ∧
    name = join '/' (["projects", project, "databases", id, "documents"] ++ pathOf pairs)

/-- An even number of segments below `documents`, one of them empty, in a name that has
its project and its database. -/
def emptyPathSegment (name : String) : Bool :=
  match split '/' name with
  | root :: project :: kind :: id :: documents :: path =>
    root == "projects" && project != "" && kind == "databases" && id != "" &&
      documents == "documents" && path.length % 2 == 0 && path.contains ""
  | _ => false

theorem pairs_of_even {path : List String} (h : path.length % 2 = 0) :
    ∃ pairs, pathOf pairs = path := by
  induction path using List.twoStepInduction with
  | nil => exact ⟨[], rfl⟩
  | singleton => simp at h
  | cons_cons collection document path ih _ =>
    rw [List.length_cons, List.length_cons] at h
    obtain ⟨pairs, hp⟩ := ih (by omega)
    exact ⟨(collection, document) :: pairs, by simp [pathOf, ← hp]⟩

theorem length_pathOf (pairs : List (String × String)) :
    (pathOf pairs).length = 2 * pairs.length := by
  simp [pathOf, List.length_flatMap, Nat.mul_comm]

theorem forall_pathOf {pairs : List (String × String)} {P : String → Prop} :
    (∀ s ∈ pathOf pairs, P s) ↔ ∀ pair ∈ pairs, P pair.1 ∧ P pair.2 := by
  simp only [pathOf, List.mem_flatMap]
  constructor
  · intro h pair hm
    exact ⟨h _ ⟨pair, hm, by simp⟩, h _ ⟨pair, hm, by simp⟩⟩
  · rintro h s ⟨pair, hm, hs⟩
    simp only [List.mem_cons, List.not_mem_nil, or_false] at hs
    rcases hs with rfl | rfl
    · exact (h pair hm).1
    · exact (h pair hm).2

/-- The name is a database's and, below its documents, an even path. -/
structure NamePath (name : String) (path : List String) : Prop where
  two_le : 2 ≤ path.length
  even : path.length % 2 = 0
  split_eq : ∃ project id, project ≠ "" ∧ id ≠ "" ∧
    split '/' name = ["projects", project, "databases", id, "documents"] ++ path

theorem NamePath.unique {name : String} {path path' : List String} (h : NamePath name path)
    (h' : NamePath name path') : path = path' := by
  obtain ⟨project, id, -, -, hs⟩ := h.split_eq
  obtain ⟨project', id', -, -, hs'⟩ := h'.split_eq
  rw [hs] at hs'
  exact (List.append_inj hs' rfl).2

/-- A name of the grammar, by what the separator cuts it into. -/
theorem documentGrammar_iff (name : String) :
    DocumentGrammar name ↔ ∃ path, NamePath name path ∧ "" ∉ path := by
  constructor
  · rintro ⟨project, id, pairs, hp, hi, hne, hpairs, rfl⟩
    have hsegs := (forall_pathOf (P := Segment)).mpr hpairs
    have hlen := length_pathOf pairs
    have hpos := List.length_pos_of_ne_nil hne
    refine ⟨pathOf pairs, ⟨by omega, by omega, project, id, hp.1, hi.1,
      split_join '/' (by simp) ?_⟩, fun hm => (hsegs _ hm).1 rfl⟩
    intro part hm
    rcases List.mem_append.mp hm with hm | hm
    · simp only [List.mem_cons, List.not_mem_nil, or_false] at hm
      rcases hm with rfl | rfl | rfl | rfl | rfl
      · decide
      · exact hp.2
      · decide
      · exact hi.2
      · decide
    · exact (hsegs part hm).2
  · rintro ⟨path, ⟨htwo, heven, project, id, hp, hi, hs⟩, hno⟩
    obtain ⟨pairs, rfl⟩ := pairs_of_even heven
    have hpieces := split_pieces '/' name
    rw [hs] at hpieces
    refine ⟨project, id, pairs, ⟨hp, hpieces _ (by simp)⟩, ⟨hi, hpieces _ (by simp)⟩, ?_, ?_, ?_⟩
    · rintro rfl
      simp [pathOf] at htwo
    · refine (forall_pathOf (P := Segment)).mp fun s hm => ⟨?_, hpieces s (by simp [hm])⟩
      rintro rfl
      exact hno hm
    · rw [← hs, join_split]

theorem validateDocumentName_iff (name : String) :
    validateDocumentName name = .ok () ↔ ∃ path, NamePath name path := by
  constructor
  · intro h
    unfold validateDocumentName at h
    split at h
    · rename_i root project kind id documents path hs
      split at h
      · rename_i hc
        simp only [Bool.and_eq_true, beq_iff_eq, bne_iff_ne, decide_eq_true_eq] at hc
        obtain ⟨⟨⟨⟨⟨⟨rfl, hp⟩, rfl⟩, hi⟩, rfl⟩, htwo⟩, heven⟩ := hc
        exact ⟨path, htwo, heven, project, id, hp, hi, hs⟩
      · cases h
    · cases h
  · rintro ⟨path, htwo, heven, project, id, hp, hi, hs⟩
    simp [validateDocumentName, hs, hp, hi, htwo, heven]

theorem emptyPathSegment_iff (name : String) :
    emptyPathSegment name = true ↔ ∃ path, NamePath name path ∧ "" ∈ path := by
  constructor
  · intro h
    unfold emptyPathSegment at h
    split at h
    · rename_i root project kind id documents path hs
      simp only [Bool.and_eq_true, beq_iff_eq, bne_iff_ne, List.contains_iff_mem] at h
      obtain ⟨⟨⟨⟨⟨⟨rfl, hp⟩, rfl⟩, hi⟩, rfl⟩, heven⟩, hm⟩ := h
      have hpos := List.length_pos_of_mem hm
      exact ⟨path, ⟨by omega, heven, project, id, hp, hi, hs⟩, hm⟩
    · cases h
  · rintro ⟨path, ⟨-, heven, project, id, hp, hi, hs⟩, hm⟩
    simp [emptyPathSegment, hs, hp, hi, heven, hm]

/-- The validation accepts exactly the grammar, except for the names it accepts with an
empty segment in their path. -/
theorem accepts_grammar_iff (name : String) :
    (validateDocumentName name = .ok () ↔ DocumentGrammar name) ↔
      emptyPathSegment name = false := by
  rw [validateDocumentName_iff, documentGrammar_iff, ← Bool.not_eq_true, emptyPathSegment_iff]
  constructor
  · rintro h ⟨path, hpath, hm⟩
    obtain ⟨path', hpath', hno⟩ := h.mp ⟨path, hpath⟩
    rw [hpath.unique hpath'] at hm
    exact hno hm
  · intro h
    constructor
    · rintro ⟨path, hpath⟩
      exact ⟨path, hpath, fun hm => h ⟨path, hpath, hm⟩⟩
    · rintro ⟨path, hpath, -⟩
      exact ⟨path, hpath⟩

/-- A document in a collection without a name is accepted. -/
theorem accepts_unnamed_collection :
    ¬ (validateDocumentName "projects/p/databases/d/documents//x" = .ok () ↔
      DocumentGrammar "projects/p/databases/d/documents//x") := by
  have hpath : NamePath "projects/p/databases/d/documents//x" ["", "x"] :=
    ⟨by decide, by decide, "p", "d", by decide, by decide, by decide⟩
  rw [validateDocumentName_iff, documentGrammar_iff]
  intro h
  obtain ⟨path, hpath', hno⟩ := h.mp ⟨_, hpath⟩
  rw [hpath'.unique hpath] at hno
  exact hno (by simp)

end FirebaseEmu.Firestore
