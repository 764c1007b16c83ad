import FirebaseEmu.Firestore.FieldPaths
import FirebaseEmu.Lib.Results

namespace FirebaseEmu.Firestore
open Lib

abbrev Unrelated (p q : List String) : Prop := ¬ Related p q

/-- The fields an update starts from. -/
def existingFields (existing : Option Document) : Fields :=
  (existing.map Document.fields).getD []

def maskedFields (source : Fields) (paths : List (List String)) (fields : Fields) : Fields :=
  paths.foldl (fun fields path => nestedSet fields path (nestedGet source path)) fields

theorem overlapping_iff (paths : List (List String)) :
    overlapping paths = true ↔ ¬ paths.Pairwise Unrelated := by
  induction paths with
  | nil => simp [overlapping]
  | cons path paths ih =>
    rw [overlapping, List.pairwise_cons, Bool.or_eq_true, ih, List.any_eq_true]
    simp only [Bool.or_eq_true, List.isPrefixOf_iff_prefix, Unrelated, Related]
    constructor
    · rintro (⟨q, hq, h⟩ | h) ⟨hall, hrest⟩
      · exact hall q hq h.symm
      · exact h hrest
    · intro h
      by_cases hrest : paths.Pairwise Unrelated
      · left
        by_contra hnone
        refine h ⟨fun q hq hr => hnone ⟨q, hq, hr.symm⟩, hrest⟩
      · exact .inr hrest

/-- With a mask the merge is refused, or sets the masked paths one after the other. -/
theorem mergeDocument_masked (existing : Option Document) (incoming : Document)
    (fieldPaths : List String) :
    mergeDocument existing incoming (some ⟨fieldPaths⟩) =
      (allOk (fieldPaths.map fieldPath)).bind fun paths =>
        if overlapping paths then .error (invalidArgument "overlapping update mask paths")
        else .ok { incoming with
          fields := maskedFields incoming.fields paths (existingFields existing) } := by
  rw [mergeDocument, mapM_eq_allOk]
  cases allOk (fieldPaths.map fieldPath) with
  | error status => rfl
  | ok paths =>
    simp only [bind, Except.bind, pure, Except.pure]
    split <;> rfl

theorem maskedFields_unrelated (source fields : Fields) {paths : List (List String)}
    {other : List String} (h : ∀ path ∈ paths, Unrelated path other) :
    nestedGet (maskedFields source paths fields) other = nestedGet fields other := by
  induction paths generalizing fields with
  | nil => rfl
  | cons path paths ih =>
    obtain ⟨hpath, hpaths⟩ := List.forall_mem_cons.mp h
    exact (ih _ hpaths).trans (nestedGet_nestedSet_unrelated fields hpath _)

theorem maskedFields_masked (source fields : Fields) {paths : List (List String)}
    (hne : ∀ path ∈ paths, path ≠ []) (h : paths.Pairwise Unrelated) {path : List String}
    (hm : path ∈ paths) : nestedGet (maskedFields source paths fields) path =
      nestedGet source path := by
  induction paths generalizing fields with
  | nil => simp at hm
  | cons head paths ih =>
    obtain ⟨hhead, hpaths⟩ := List.pairwise_cons.mp h
    obtain ⟨hhne, hne⟩ := List.forall_mem_cons.mp hne
    rcases List.mem_cons.mp hm with rfl | hm
    · have hlater : ∀ q ∈ paths, Unrelated q path := fun q hq hr => hhead q hq hr.symm
      exact (maskedFields_unrelated source _ hlater).trans
        (nestedGet_nestedSet_self fields hhne _)
    · exact ih _ hne hpaths hm

/-- The order of the mask does not matter. -/
theorem maskedFields_perm {source fields : Fields} (hs : source.KeySorted)
    (hf : fields.KeySorted) {paths paths' : List (List String)} (hp : paths.Perm paths')
    (h : paths.Pairwise Unrelated) :
    maskedFields source paths fields = maskedFields source paths' fields := by
  have hvalue : ∀ path, ∀ v ∈ nestedGet source path, v.KeySorted := fun path v hv => hs.nestedGet hv
  refine foldl_perm Fields.KeySorted (fun p q h hr => h hr.symm) ?_ ?_ hp h fields hf
  · intro fields path hf
    exact hf.nestedSet path (hvalue path)
  · intro fields p q hf hpq
    exact nestedSet_comm hf hpq (hvalue p) (hvalue q)

/-- A mask is refused or merges exactly the paths it names, in whatever order. -/
theorem masks_merge_named_paths :
    (∀ (existing : Option Document) (incoming : Document) (fieldPaths : List String)
      (path : String) (status : Status), path ∈ fieldPaths → fieldPath path = .error status →
        ∃ refusal, mergeDocument existing incoming (some ⟨fieldPaths⟩) = .error refusal) ∧
    (∀ (existing : Option Document) (incoming : Document) (fieldPaths : List String)
      (paths : List (List String)), fieldPaths.map fieldPath = paths.map .ok →
        ¬ paths.Pairwise Unrelated →
        ∃ refusal, mergeDocument existing incoming (some ⟨fieldPaths⟩) = .error refusal) ∧
    (∀ (existing : Option Document) (incoming : Document) (fieldPaths : List String)
      (paths : List (List String)), fieldPaths.map fieldPath = paths.map .ok →
        paths.Pairwise Unrelated →
        ∃ merged, mergeDocument existing incoming (some ⟨fieldPaths⟩) = .ok merged ∧
          (∀ path ∈ paths, nestedGet merged.fields path = nestedGet incoming.fields path) ∧
          (∀ other, (∀ path ∈ paths, Unrelated path other) →
            nestedGet merged.fields other = nestedGet (existingFields existing) other) ∧
          ((∀ document ∈ existing, document.KeySorted) → incoming.KeySorted →
            ∀ fieldPaths' : List String, fieldPaths'.Perm fieldPaths →
              mergeDocument existing incoming (some ⟨fieldPaths'⟩) = .ok merged)) ∧
    (∀ (existing : Option Document) (incoming : Document),
      mergeDocument existing incoming none = .ok incoming) := by
  refine ⟨?_, ?_, ?_, fun _ _ => rfl⟩
  · intro existing incoming fieldPaths path status hm he
    rw [mergeDocument_masked]
    cases hok : allOk (fieldPaths.map fieldPath) with
    | error refusal => exact ⟨refusal, rfl⟩
    | ok paths =>
      have hmem : fieldPath path ∈ paths.map Except.ok :=
        allOk_eq_ok.mp hok ▸ List.mem_map_of_mem hm
      rw [he] at hmem
      simp at hmem
  · intro existing incoming fieldPaths paths hparsed hrel
    rw [mergeDocument_masked, allOk_eq_ok.mpr hparsed]
    exact ⟨_, by rw [Except.bind, if_pos ((overlapping_iff paths).mpr hrel)]⟩
  · intro existing incoming fieldPaths paths hparsed hrel
    have hne : ∀ path ∈ paths, path ≠ [] := by
      intro path hm
      have hmem : Except.ok path ∈ fieldPaths.map fieldPath := hparsed ▸ List.mem_map_of_mem hm
      obtain ⟨text, -, hpath⟩ := List.mem_map.mp hmem
      exact (fieldPath_ok hpath).1
    have hover : ∀ {paths : List (List String)}, paths.Pairwise Unrelated →
        ¬ overlapping paths = true := fun h ho => (overlapping_iff _).mp ho h
    refine ⟨{ incoming with
      fields := maskedFields incoming.fields paths (existingFields existing) }, ?_, ?_, ?_, ?_⟩
    · rw [mergeDocument_masked, allOk_eq_ok.mpr hparsed, Except.bind, if_neg (hover hrel)]
    · intro path hm
      exact maskedFields_masked _ _ hne hrel hm
    · intro other h
      exact maskedFields_unrelated _ _ h
    · intro hexisting hincoming fieldPaths' hp
      obtain ⟨paths', hparsed', hp'⟩ := map_ok_perm hp hparsed
      have hrel' := (hp'.pairwise_iff (fun h hr => h hr.symm)).mpr hrel
      have hfields : Fields.KeySorted (existingFields existing) := by
        cases existing with
        | none => exact .nil
        | some document => exact hexisting document rfl
      rw [mergeDocument_masked, allOk_eq_ok.mpr hparsed', Except.bind, if_neg (hover hrel'),
        maskedFields_perm hincoming hfields hp' hrel']

end FirebaseEmu.Firestore
