import FirebaseEmu.Firestore.Memory
import FirebaseEmu.Firestore.Sample

namespace FirebaseEmu.Firestore
open Lib Std

variable {β : Type} (codec : DocumentCodec β)

/-- The documents after `applyWrite` for each write, from left to right. -/
def foldWrites (writeTime : Timestamp) (documents : Documents) (writes : List Write) : Documents :=
  writes.foldl (fun documents write => (applyWrite documents write writeTime).2) documents

/-- The writes answered with status 0, in order. -/
def okWrites (writes : List Write) (statuses : List RpcStatus) : List Write :=
  ((writes.zip statuses).filter fun (_, status) => status.code == 0).map Prod.fst

theorem foldWrites_eq_after (writeTime : Timestamp) (documents : Documents) (writes : List Write) :
    foldWrites writeTime documents writes = (writeOps writeTime).after documents writes := by
  simp only [foldWrites, applyWrite_eq_apply]
  rfl

theorem okWrites_outcomes (writeTime : Timestamp) (documents : Documents) (writes : List Write) :
    okWrites writes (((writeOps writeTime).outcomes documents writes).map rpcStatusOf) =
      (writeOps writeTime).accepted documents writes := by
  induction writes generalizing documents with
  | nil => rfl
  | cons write writes ih =>
    have ih := ih ((writeOps writeTime).apply documents write).2
    unfold KeyedOps.outcomes KeyedOps.accepted
    simp only [okWrites, List.map_cons, List.zip_cons_cons] at ih ⊢
    split
    · rename_i ha
      rw [List.filter_cons_of_pos (by simpa using rpcStatusOf_code.mpr ha), List.map_cons, ih]
    · rename_i hr
      rw [List.filter_cons_of_neg (by simpa using fun hz => hr (rpcStatusOf_code.mp hz)), ih]

/-- The state a prefix of the writes leads to is that of its accepted writes alone. -/
theorem foldWrites_okWrites (writeTime : Timestamp) (documents : Documents) (writes : List Write)
    (i : Nat) :
    foldWrites writeTime documents (okWrites (writes.take i)
      ((((writeOps writeTime).outcomes documents writes).map rpcStatusOf).take i)) =
      (writeOps writeTime).after documents (writes.take i) := by
  rw [← List.map_take, ← KeyedOps.outcomes_take, okWrites_outcomes, foldWrites_eq_after,
    KeyedOps.after_accepted]

theorem allOk_outcomes_accepted (writeTime : Timestamp) (documents : Documents)
    (writes : List Write) :
    (allOk ((writeOps writeTime).outcomes documents
      ((writeOps writeTime).accepted documents writes))).isOk := by
  rw [allOk_isOk, KeyedOps.outcomes_accepted]
  exact fun outcome h => (List.mem_filter.mp h).2

theorem commit_result_get {writeTime : Timestamp} {documents : Documents} {writes : List Write}
    {results : List WriteResult}
    (h : allOk ((writeOps writeTime).outcomes documents writes) = .ok results) (i : Nat) :
    results[i]?.map Except.ok = writes[i]?.map fun write =>
      (applyWrite (foldWrites writeTime documents (writes.take i)) write writeTime).1 := by
  have hi := congrArg (·[i]?) (allOk_eq_ok.mp h)
  simp only [KeyedOps.outcomes_get, List.getElem?_map] at hi
  rw [← hi, foldWrites_eq_after]
  simp only [applyWrite_eq_apply]

/-- An in-memory commit applies all its writes in turn or nothing at all, and a batch
write is the commit of the writes it answers with status 0. -/
theorem commit_atomic_batchWrite_partial (service : FirestoreService β)
    (hm : service.persistence = none) (time : Timestamp) :
    (∀ request response service',
      commit codec service request time = (.ok response, service') →
        service'.store.documents =
          foldWrites time service.store.documents request.writes ∧
        response.writeResults.length = request.writes.length ∧
        ∀ i, response.writeResults[i]?.map Except.ok = request.writes[i]?.map fun write =>
          (applyWrite (foldWrites time service.store.documents (request.writes.take i))
            write time).1) ∧
    (∀ request status service',
      commit codec service request time = (.error status, service') →
        service'.store.documents = service.store.documents ∧
        service'.store.transactions = service.store.transactions) ∧
    (∀ request : BatchWriteRequest, ∃ response service',
      batchWrite codec service request time = (.ok response, service') ∧
      response.writeResults.length = request.writes.length ∧
      response.status.length = request.writes.length ∧
      (∀ i write status, request.writes[i]? = some write → response.status[i]? = some status →
        (status.code ≠ 0 ↔ ∃ refusal, (applyWrite (foldWrites time service.store.documents
          (okWrites (request.writes.take i) (response.status.take i))) write time).1 =
            .error refusal)) ∧
      ∃ committed service'',
        commit codec service
          ⟨request.database, okWrites request.writes response.status, []⟩ time =
            (.ok committed, service'') ∧
        service'.store.documents = service''.store.documents) := by
  refine ⟨?_, ?_, ?_⟩
  · intro request response service' h
    rcases commit_memory codec service hm request time with
      ⟨status, hc, -⟩ | ⟨results, after, hc, -, ho, effect⟩
    · rw [hc] at h
      cases h
    · rw [hc] at h
      cases h
      refine ⟨?_, ?_, commit_result_get ho⟩
      · rw [effect.documents, foldWrites_eq_after]
      · have hl := congrArg List.length (allOk_eq_ok.mp ho)
        simpa using hl.symm
  · intro request status service' h
    rcases commit_memory codec service hm request time with
      ⟨status, hc, -⟩ | ⟨results, after, hc, -⟩
    · rw [hc] at h
      cases h
      exact ⟨rfl, rfl⟩
    · rw [hc] at h
      cases h
  · intro request
    obtain ⟨service', hb, effect⟩ := batchWrite_memory codec service hm request time
    refine ⟨_, service', hb, by simp, by simp, ?_, ?_⟩
    · intro i write status hw hs
      rw [foldWrites_okWrites]
      simp only [List.getElem?_map, KeyedOps.outcomes_get, hw, Option.map_some,
        Option.some.injEq] at hs
      rw [← hs, applyWrite_eq_apply, ne_eq, rpcStatusOf_code]
      cases ((writeOps time).apply ((writeOps time).after service.store.documents
        (request.writes.take i)) write).1 <;> simp [Except.isOk, Except.toBool]
    · rw [okWrites_outcomes]
      have hall := allOk_outcomes_accepted time service.store.documents request.writes
      rcases commit_memory codec service hm
          ⟨request.database, (writeOps time).accepted service.store.documents request.writes, []⟩
          time with ⟨status, -, hr⟩ | ⟨results, service'', hc, -, -, committed⟩
      · rcases hr with hr | ⟨-, hr⟩
        · simp [checkTransaction] at hr
        · rw [hr] at hall
          cases hall
      · refine ⟨_, service'', hc, ?_⟩
        rw [effect.documents, committed.documents, KeyedOps.after_accepted]

/-- One write that is accepted and one that is not: the commit of both leaves nothing,
the batch write refuses the second on the state the first leaves. -/
theorem commit_atomic_batchWrite_partial_sample :
    let create := sampleSet (sampleName sampleDatabase "a") [("n", .integerValue 1)]
    let refused := sampleDelete (sampleName sampleDatabase "b") (some ⟨some (.existence true)⟩)
    (commit plainCodec sampleMemory ⟨sampleDatabase, [create], []⟩
      (sampleTime 1)).2.store.documents = foldWrites (sampleTime 1) ∅ [create] ∧
    (commit plainCodec sampleMemory ⟨sampleDatabase, [create, refused], []⟩
      (sampleTime 1)).2.store.documents = ∅ ∧
    ∃ refusal, (applyWrite (foldWrites (sampleTime 1) ∅ (okWrites [create] [.default])) refused
      (sampleTime 1)).1 = .error refusal := by
  intro create refused
  obtain ⟨hok, herror, hbatch⟩ := commit_atomic_batchWrite_partial plainCodec
    sampleMemory rfl (sampleTime 1)
  obtain ⟨response, service', hb, -, -, hstatus, -⟩ :=
    hbatch ⟨sampleDatabase, [create, refused]⟩
  have hs : response.status[1]? = some (statusProto ⟨.failedPrecondition,
      "document existence precondition failed"⟩) ∧ response.status.take 1 = [.default] := by
    obtain rfl := Except.ok.inj (congrArg Prod.fst hb)
    exact ⟨rfl, rfl⟩
  refine ⟨(hok ⟨sampleDatabase, [create], []⟩ _ _ rfl).1,
    (herror ⟨sampleDatabase, [create, refused], []⟩ ⟨.failedPrecondition,
      "document existence precondition failed"⟩ _ rfl).1, ?_⟩
  have hrefused := (hstatus 1 refused _ rfl hs.1).mp (statusProto_code_ne _)
  rw [hs.2] at hrefused
  exact hrefused

end FirebaseEmu.Firestore
