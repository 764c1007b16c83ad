import FirebaseEmu.Firestore.Requests
import FirebaseEmu.Firestore.Sample
import FirebaseEmu.Lib.Since

namespace FirebaseEmu.Firestore
open Lib Std

/-- The database a call opens a transaction for; its token is the identifier drawn. -/
def Call.issued (call : Call) : Option String :=
  match call.request with
  | .beginTransaction database => (databaseDocumentPrefix database).toOption.map fun _ => database
  | .batchGetDocuments request =>
    (request.documents.forM validateDocumentName).toOption.bind fun _ => request.opens
  | .runQuery request => request.opens
  | _ => none

/-- The transactions that stay open when the request succeeds. -/
def Request.remaining (request : Request) (transactions : ExtTreeMap Bytes String) :
    ExtTreeMap Bytes String :=
  match request with
  | .commit request =>
    if request.transaction = [] then transactions else transactions.erase request.transaction
  | .rollback request => transactions.erase request.transaction
  | .clearDatabase database =>
    transactions.filter fun _ transactionDatabase => transactionDatabase != database
  | _ => transactions

variable {β : Type} (codec : DocumentCodec β)

section Handlers
variable (service : FirestoreService β) (now : Timestamp)

theorem createDocument_transactions (request : CreateDocumentRequest) :
    (createDocument codec service request now).2.store.transactions =
      service.store.transactions := by
  unfold createDocument
  split
  · rfl
  split
  · rfl
  split
  · split <;> rfl
  · have ht : (service.store.takeDocumentId request.documentId).2.transactions =
        service.store.transactions := by
      unfold Store.takeDocumentId
      split <;> rfl
    dsimp only
    split
    · exact ht
    · split <;> exact ht

theorem updateDocument_transactions (request : UpdateDocumentRequest) :
    (updateDocument codec service request now).2.store.transactions =
      service.store.transactions := by
  unfold updateDocument
  split
  · rfl
  dsimp only
  split
  · split
    · rfl
    · split
      · rfl
      · split <;> rfl
  · split
    · rfl
    · split <;> rfl

theorem deleteDocument_transactions (request : DeleteDocumentRequest) :
    (deleteDocument codec service request now).2.store.transactions =
      service.store.transactions := by
  unfold deleteDocument
  split
  · rfl
  split
  · split
    · rfl
    · split <;> rfl
  · split <;> rfl

theorem batchWrite_transactions (request : BatchWriteRequest) :
    (batchWrite codec service request now).2.store.transactions =
      service.store.transactions := by
  unfold batchWrite
  split
  · split <;> rfl
  · rfl

theorem commit_transactions (request : CommitRequest) :
    (commit codec service request now).2.store.transactions =
      match (commit codec service request now).1 with
      | .ok _ => (Request.commit request).remaining service.store.transactions
      | .error _ => service.store.transactions := by
  have hr : (removeTransaction service.store request.transaction).transactions =
      (Request.commit request).remaining service.store.transactions := by
    simp only [Request.remaining, removeTransaction]
    split <;> rfl
  unfold commit
  cases checkTransaction service.store request.database request.transaction with
  | error status => rfl
  | ok _ =>
    cases service.persistence with
    | some p =>
      dsimp only
      cases persistentWrites codec p request.database request.writes false now with
      | mk outcome p' => cases outcome with
        | error status => rfl
        | ok results => exact hr
    | none =>
      dsimp only
      cases (pendingWrites now service.store.documents request.writes []).1 with
      | error status => rfl
      | ok results =>
        simp only [removeTransaction] at hr ⊢
        split at hr <;> rename_i ht <;> simp only [ht] <;> exact hr

theorem rollback_transactions (request : RollbackRequest) :
    (rollback service request).2.store.transactions =
      match (rollback service request).1 with
      | .ok _ => (Request.rollback request).remaining service.store.transactions
      | .error _ => service.store.transactions := by
  unfold rollback
  split <;> rfl

theorem clearDatabase_transactions (database : String) :
    (clearDatabase service database).2.store.transactions =
      match (clearDatabase service database).1 with
      | .ok _ => (Request.clearDatabase database).remaining service.store.transactions
      | .error _ => service.store.transactions := by
  unfold clearDatabase
  cases databaseDocumentPrefix database with
  | error status => rfl
  | ok pre => cases service.persistence <;> rfl

variable (uuid : Bytes)

theorem beginTransaction_transactions (database : String) :
    (beginTransaction service database uuid).2.store.transactions =
      match Call.issued ⟨.beginTransaction database, now, uuid⟩ with
      | some database => service.store.transactions.insert uuid database
      | none => service.store.transactions := by
  dsimp only [beginTransaction, Call.issued]
  cases databaseDocumentPrefix database <;> rfl

theorem batchGetDocuments_transactions (request : BatchGetDocumentsRequest) :
    (batchGetDocuments codec service request now uuid).2.store.transactions =
      match Call.issued ⟨.batchGetDocuments request, now, uuid⟩ with
      | some database => service.store.transactions.insert uuid database
      | none => service.store.transactions := by
  dsimp only [batchGetDocuments, Call.issued]
  cases request.documents.forM validateDocumentName with
  | error status => rfl
  | ok _ =>
    rcases openBatchGet_cases service.store request uuid with
      ⟨database, hd, ho⟩ | ⟨hd, ho | ⟨status, ho⟩⟩
    all_goals rw [hd, ho]; rfl

theorem runQuery_transactions (request : RunQueryRequest) :
    (runQuery codec service request now uuid).2.store.transactions =
      match Call.issued ⟨.runQuery request, now, uuid⟩ with
      | some database => service.store.transactions.insert uuid database
      | none => service.store.transactions := by
  dsimp only [runQuery, Call.issued]
  rcases openRunQuery_cases service.store request uuid with
    ⟨database, hd, ho⟩ | ⟨hd, ho | ⟨status, ho⟩⟩
  all_goals simp only [hd, ho]
  all_goals rfl

end Handlers

/-- What a call does to the open transactions: it opens the one it is issued, or, when
it succeeds, closes those it ends. -/
theorem handle_transactions (service : FirestoreService β) (call : Call) :
    (handle codec service call).2.store.transactions =
      match call.issued with
      | some database => service.store.transactions.insert call.uuid database
      | none =>
        match (handle codec service call).1 with
        | .ok _ => call.request.remaining service.store.transactions
        | .error _ => service.store.transactions := by
  obtain ⟨request, now, uuid⟩ := call
  cases request with
  | createDocument request =>
    refine (createDocument_transactions codec service now request).trans ?_
    dsimp only [Call.issued]
    split <;> rfl
  | updateDocument request =>
    refine (updateDocument_transactions codec service now request).trans ?_
    dsimp only [Call.issued]
    split <;> rfl
  | deleteDocument request =>
    refine (deleteDocument_transactions codec service now request).trans ?_
    dsimp only [Call.issued]
    split <;> rfl
  | batchWrite request =>
    refine (batchWrite_transactions codec service now request).trans ?_
    dsimp only [Call.issued]
    split <;> rfl
  | beginTransaction database =>
    refine (beginTransaction_transactions service now uuid database).trans ?_
    split
    · rfl
    · split <;> rfl
  | batchGetDocuments request =>
    refine (batchGetDocuments_transactions codec service now uuid request).trans ?_
    split
    · rfl
    · split <;> rfl
  | runQuery request =>
    refine (runQuery_transactions codec service now uuid request).trans ?_
    split
    · rfl
    · split <;> rfl
  | commit request =>
    refine (commit_transactions codec service now request).trans ?_
    dsimp only [Call.issued, handle, answer]
    cases (commit codec service request now).1 <;> rfl
  | rollback request =>
    refine (rollback_transactions service request).trans ?_
    dsimp only [Call.issued, handle, answer]
    cases (rollback service request).1 <;> rfl
  | clearDatabase database =>
    refine (clearDatabase_transactions service database).trans ?_
    dsimp only [Call.issued, handle, answer]
    cases (clearDatabase service database).1 <;> rfl

/-- The served call drew the token for the database. -/
def Issues (database : String) (token : Bytes)
    (served : Call × Except Status Response) : Prop :=
  served.1.issued = some database ∧ served.1.uuid = token

/-- The served call succeeded and closed the token: a commit or a rollback that presents
it, or the clearing of its database. -/
def Ends (database : String) (token : Bytes) (served : Call × Except Status Response) : Prop :=
  served.2.isOk ∧
    match served.1.request with
    | .commit request => request.transaction = token
    | .rollback request => request.transaction = token
    | .clearDatabase cleared => cleared = database
    | _ => False

/-- The identifiers drawn for the tokens of the calls are all different. -/
def FreshTokens (calls : List Call) : Prop :=
  ((calls.filter (·.issued.isSome)).map Call.uuid).Nodup

/-- The tokens a response hands to the client. -/
def Response.tokens : Response → List Bytes
  | .beginTransaction transaction => [transaction]
  | .batchGetDocuments responses =>
    (responses.map BatchGetDocumentsResponse.transaction).filter (· ≠ [])
  | .runQuery responses => (responses.map RunQueryResponse.transaction).filter (· ≠ [])
  | _ => []

theorem validateTransaction_iff {store : Store} {database : String} {token : Bytes} :
    validateTransaction store database token = .ok () ↔
      store.transactions[token]? = some database := by
  unfold validateTransaction
  cases store.transactions[token]? with
  | none => simp
  | some transactionDatabase => by_cases h : transactionDatabase = database <;> simp [h]

/-- A successful call that draws no token keeps the others, save those it ends. -/
theorem remaining_get {request : Request} {now : Timestamp} {uuid : Bytes} {response : Response}
    {transactions : ExtTreeMap Bytes String} {database : String} {token : Bytes}
    (ht : token ≠ []) :
    (request.remaining transactions)[token]? = some database ↔
      transactions[token]? = some database ∧
        ¬ Ends database token (⟨request, now, uuid⟩, .ok response) := by
  cases request with
  | commit request =>
    simp only [Request.remaining, Ends, Except.isOk, Except.toBool, true_and]
    by_cases he : request.transaction = []
    · simp [he, Ne.symm ht]
    · simp [he, ExtTreeMap.getElem?_erase, and_comm]
  | rollback request =>
    simp [Request.remaining, Ends, Except.isOk, Except.toBool, ExtTreeMap.getElem?_erase, and_comm]
  | clearDatabase cleared =>
    simp only [Request.remaining, Ends, Except.isOk, Except.toBool, true_and,
      ExtTreeMap.getElem?_filter', Option.filter_eq_some_iff, bne_iff_ne, ne_eq]
    constructor
    · rintro ⟨h, hd⟩
      exact ⟨h, fun hc => hd hc.symm⟩
    · rintro ⟨h, hd⟩
      exact ⟨h, fun hc => hd hc.symm⟩
  | _ => simp [Request.remaining, Ends]

/-- One call: a token passes afterwards when the call issues it, or it passed before and
the call does not end it. -/
theorem validateTransaction_step (service : FirestoreService β) (call : Call) {database : String}
    {token : Bytes} (ht : token ≠ [])
    (hfresh : call.issued.isSome → call.uuid = token → service.store.transactions[token]? = none) :
    validateTransaction (handle codec service call).2.store database token = .ok () ↔
      Issues database token (call, (handle codec service call).1) ∨
      validateTransaction service.store database token = .ok () ∧
        ¬ Ends database token (call, (handle codec service call).1) := by
  rw [validateTransaction_iff, validateTransaction_iff, handle_transactions]
  cases hi : call.issued with
  | some opened =>
    have hends : ¬ Ends database token (call, (handle codec service call).1) := by
      rintro ⟨-, h⟩
      unfold Call.issued at hi
      split at hi <;> simp_all
    by_cases hu : call.uuid = token
    · have hnone := hfresh (by simp [hi]) hu
      simp [Issues, hi, hu, hnone]
    · simp [Issues, hi, hu, hends, ExtTreeMap.getElem?_insert]
  | none =>
    have hissues : ¬ Issues database token (call, (handle codec service call).1) := by
      rintro ⟨h, -⟩
      simp [hi] at h
    cases ho : (handle codec service call).1 with
    | ok response =>
      rw [ho] at hissues
      obtain ⟨request, now, uuid⟩ := call
      simp only [hissues, false_or]
      exact remaining_get ht
    | error status =>
      have hends : ¬ Ends database token (call, .error status) := by
        simp [Ends, Except.isOk, Except.toBool]
      rw [ho] at hissues
      simp [hissues, hends]

theorem FreshTokens.left {calls more : List Call} (h : FreshTokens (calls ++ more)) :
    FreshTokens calls := by
  unfold FreshTokens at h ⊢
  rw [List.filter_append, List.map_append] at h
  exact (List.nodup_append.mp h).1

/-- A token is never drawn again. -/
theorem FreshTokens.ne {calls more : List Call} (h : FreshTokens (calls ++ more))
    {first second : Call} (hf : first ∈ calls) (hs : second ∈ more) (hfi : first.issued.isSome)
    (hsi : second.issued.isSome) : first.uuid ≠ second.uuid := by
  unfold FreshTokens at h
  rw [List.filter_append, List.map_append] at h
  exact (List.nodup_append.mp h).2.2 _ (List.mem_map_of_mem (List.mem_filter.mpr ⟨hf, hfi⟩)) _
    (List.mem_map_of_mem (List.mem_filter.mpr ⟨hs, hsi⟩))

variable {codec}

/-- A token that was issued in a run was drawn by one of its calls. -/
theorem issued_mem {service : FirestoreService β} {calls : List Call} {database : String}
    {token : Bytes} (h : ∃ served ∈ history codec service calls, Issues database token served) :
    ∃ call ∈ calls, call.issued.isSome ∧ call.uuid = token := by
  obtain ⟨served, hm, hi, hu⟩ := h
  refine ⟨served.1, ?_, by simp [hi], hu⟩
  have := List.mem_map_of_mem (f := Prod.fst) hm
  rwa [history_calls] at this

/-- In a run from no open transactions, a token passes for a database exactly when it
was issued for it and nothing has ended it since. -/
theorem validateTransaction_run {service : FirestoreService β}
    (h0 : service.store.transactions = ∅) {calls : List Call} (hf : FreshTokens calls)
    {token : Bytes} (ht : token ≠ []) (database : String) :
    validateTransaction (run codec service calls).store database token = .ok () ↔
      Since (Issues database token) (Ends database token) (history codec service calls) := by
  induction calls using List.reverseRecOn generalizing database with
  | nil =>
    rw [validateTransaction_iff]
    simp [h0, history, not_since_nil]
  | append_singleton calls call ih =>
    rw [run_append, history_append, run_cons, run_nil, history, history, since_concat,
      validateTransaction_step codec (run codec service calls) call ht, ih hf.left]
    intro hi hu
    cases hg : (run codec service calls).store.transactions[token]? with
    | none => rfl
    | some opened =>
      have hs := (ih hf.left opened).mp (validateTransaction_iff.mpr hg)
      obtain ⟨first, hm, hfi, hfu⟩ := issued_mem hs.opened
      exact absurd (hfu.trans hu.symm) (hf.ne hm (List.mem_singleton_self call) hfi hi)

theorem commit_ok_checked {service : FirestoreService β} {request : CommitRequest}
    {now : Timestamp} {response : CommitResponse}
    (h : (commit codec service request now).1 = .ok response) :
    checkTransaction service.store request.database request.transaction = .ok () := by
  unfold commit at h
  split at h
  · cases h
  · rename_i hc
    exact hc

theorem batchGetResponses_transaction {found : Documents} {token : Option Bytes}
    {readTime : Timestamp} {names : List String} {response : BatchGetDocumentsResponse}
    (h : response ∈ batchGetResponses found token readTime names) :
    response.transaction = [] ∨ token = some response.transaction := by
  unfold batchGetResponses at h
  dsimp only at h
  generalize hr : (if (List.isEmpty _ && token.isSome) = true then _ else _ :
    List BatchGetDocumentsResponse) = responses at h
  have hempty : ∀ response ∈ responses, response.transaction = [] := by
    rw [← hr]
    intro response hm
    split at hm
    · rw [List.mem_singleton.mp hm]
    · obtain ⟨name, -, rfl⟩ := List.mem_map.mp hm
      rfl
  split at h
  · rcases List.mem_cons.mp h with rfl | h
    · exact .inr rfl
    · exact .inl (hempty response (List.mem_cons_of_mem _ h))
  · exact .inl (hempty response h)

theorem runQueryResponses_transaction {docs : List Document} {token : Option Bytes}
    {readTime : Timestamp} {response : RunQueryResponse}
    (h : response ∈ runQueryResponses docs token readTime) :
    response.transaction = [] ∨ token = some response.transaction := by
  have htoken : token.getD [] = [] ∨ token = some (token.getD []) := by
    cases token with
    | none => exact .inl rfl
    | some token => exact .inr rfl
  unfold runQueryResponses at h
  split at h
  · rw [List.mem_singleton.mp h]
    exact htoken
  · obtain ⟨index, hi, rfl⟩ := List.mem_mapIdx.mp h
    dsimp only
    split
    · exact htoken
    · exact .inl rfl

theorem batchGetDocuments_tokens {service : FirestoreService β}
    {request : BatchGetDocumentsRequest} {now : Timestamp} {uuid : Bytes}
    {responses : List BatchGetDocumentsResponse}
    (h : (batchGetDocuments codec service request now uuid).1 = .ok responses)
    {response : BatchGetDocumentsResponse} (hm : response ∈ responses) :
    response.transaction = [] ∨
      (Call.issued ⟨.batchGetDocuments request, now, uuid⟩).isSome ∧
        uuid = response.transaction := by
  dsimp only [batchGetDocuments, Call.issued] at h ⊢
  split at h
  · cases h
  rename_i hnames
  rcases openBatchGet_cases service.store request uuid with
    ⟨database, hd, ho⟩ | ⟨hd, ho | ⟨status, ho⟩⟩
  · simp only [ho] at h
    obtain ⟨found, -, rfl⟩ := exceptMap_eq_ok.mp h
    rcases batchGetResponses_transaction hm with he | he
    · exact .inl he
    · exact .inr ⟨by simp [hnames, hd, Except.toOption], Option.some.inj he⟩
  · simp only [ho] at h
    obtain ⟨found, -, rfl⟩ := exceptMap_eq_ok.mp h
    rcases batchGetResponses_transaction hm with he | he
    · exact .inl he
    · cases he
  · simp only [ho] at h
    cases h

theorem runQuery_tokens {service : FirestoreService β} {request : RunQueryRequest}
    {now : Timestamp} {uuid : Bytes} {responses : List RunQueryResponse}
    (h : (runQuery codec service request now uuid).1 = .ok responses)
    {response : RunQueryResponse} (hm : response ∈ responses) :
    response.transaction = [] ∨
      (Call.issued ⟨.runQuery request, now, uuid⟩).isSome ∧ uuid = response.transaction := by
  dsimp only [runQuery, Call.issued] at h ⊢
  rcases openRunQuery_cases service.store request uuid with
    ⟨database, hd, ho⟩ | ⟨hd, ho | ⟨status, ho⟩⟩
  · simp only [ho] at h
    obtain ⟨docs, -, rfl⟩ := exceptMap_eq_ok.mp h
    rcases runQueryResponses_transaction hm with he | he
    · exact .inl he
    · exact .inr ⟨by simp [hd], Option.some.inj he⟩
  · simp only [ho] at h
    obtain ⟨docs, -, rfl⟩ := exceptMap_eq_ok.mp h
    rcases runQueryResponses_transaction hm with he | he
    · exact .inl he
    · cases he
  · simp only [ho] at h
    cases h

/-- The tokens in a response are the one its call drew. -/
theorem handle_tokens {service : FirestoreService β} {call : Call} {response : Response}
    (h : (handle codec service call).1 = .ok response) {token : Bytes}
    (ht : token ∈ response.tokens) : call.issued.isSome ∧ call.uuid = token := by
  obtain ⟨request, now, uuid⟩ := call
  cases request with
  | beginTransaction database =>
    obtain ⟨transaction, hb, rfl⟩ := answer_ok.mp h
    unfold beginTransaction at hb
    split at hb
    · cases hb
    · rename_i hd
      cases hb
      simp only [Response.tokens, List.mem_singleton] at ht
      simp [Call.issued, hd, ht, Except.toOption]
  | batchGetDocuments request =>
    obtain ⟨responses, hb, rfl⟩ := answer_ok.mp h
    obtain ⟨hm, hne⟩ := List.mem_filter.mp ht
    obtain ⟨response, hr, rfl⟩ := List.mem_map.mp hm
    exact (batchGetDocuments_tokens hb hr).resolve_left (by simpa using hne)
  | runQuery request =>
    obtain ⟨responses, hb, rfl⟩ := answer_ok.mp h
    obtain ⟨hm, hne⟩ := List.mem_filter.mp ht
    obtain ⟨response, hr, rfl⟩ := List.mem_map.mp hm
    exact (runQuery_tokens hb hr).resolve_left (by simpa using hne)
  | _ =>
    obtain ⟨a, -, rfl⟩ := answer_ok.mp h
    cases ht

/-- After a successful commit its token passes for no database, however the run goes on. -/
theorem committed_token_dead {service : FirestoreService β}
    (h0 : service.store.transactions = ∅) {before after : List Call} {request : CommitRequest}
    {now : Timestamp} {uuid : Bytes}
    (hf : FreshTokens (before ++ ⟨.commit request, now, uuid⟩ :: after))
    (ht : request.transaction ≠ []) {response : Response}
    (hok : (handle codec (run codec service before) ⟨.commit request, now, uuid⟩).1 = .ok response)
    (database : String) :
    validateTransaction (run codec service (before ++ ⟨.commit request, now, uuid⟩ :: after)).store
      database request.transaction ≠ .ok () := by
  intro hv
  rw [validateTransaction_run h0 hf ht, history_append, history] at hv
  obtain ⟨pre, event, post, he, ⟨hi, hu⟩, hends⟩ := hv
  obtain ⟨committed, hc, -⟩ := answer_ok.mp hok
  have hpassed : validateTransaction (run codec service before).store request.database
      request.transaction = .ok () := by
    simpa [checkTransaction, ht] using commit_ok_checked hc
  obtain ⟨first, hfirst, hfi, hfu⟩ :=
    issued_mem ((validateTransaction_run h0 hf.left ht _).mp hpassed).opened
  -- the token was issued before the commit, so any other issue is the same draw again
  have hdrawn : ∀ served ∈ history codec
      (handle codec (run codec service before) ⟨.commit request, now, uuid⟩).2 after,
      served ≠ event := by
    rintro served hm rfl
    have hmem := List.mem_map_of_mem (f := Prod.fst) hm
    rw [history_calls] at hmem
    exact hf.ne hfirst (List.mem_cons_of_mem _ hmem) hfi (by simp [hi]) (hfu.trans hu.symm)
  have hne : event ≠ (⟨.commit request, now, uuid⟩,
      (handle codec (run codec service before) ⟨.commit request, now, uuid⟩).1) := by
    rintro rfl
    simp [Call.issued] at hi
  rcases List.append_eq_append_iff.mp he with ⟨mid, -, hmid⟩ | ⟨mid, -, hmid⟩
  · cases mid with
    | nil => exact hne (List.cons.inj hmid).1.symm
    | cons head mid =>
      exact hdrawn event (by rw [(List.cons.inj hmid).2]; simp) rfl
  · cases mid with
    | nil => exact hne (List.cons.inj hmid).1
    | cons head mid =>
      have hm : (⟨.commit request, now, uuid⟩, (handle codec (run codec service before)
          ⟨.commit request, now, uuid⟩).1) ∈ post := by
        rw [(List.cons.inj hmid).2]
        simp
      refine hends _ hm ⟨?_, rfl⟩
      rw [hok]
      rfl

/-- Transaction tokens are single-use and belong to one database. In a run from no open
transactions a token passes for a database exactly when it was issued for it and no
commit or rollback with it, nor a clearing of the database, has succeeded since; a refused
commit leaves it as it was and a successful one spends it for good; and the tokens of the
responses are the issued ones. -/
theorem token_single_use (codec : DocumentCodec β) {service : FirestoreService β}
    (h0 : service.store.transactions = ∅) {calls : List Call} (hf : FreshTokens calls)
    {token : Bytes} (ht : token ≠ []) :
    (∀ database,
      validateTransaction (run codec service calls).store database token = .ok () ↔
        Since (Issues database token) (Ends database token) (history codec service calls)) ∧
    (∀ before request now uuid after, calls = before ++ ⟨.commit request, now, uuid⟩ :: after →
      request.transaction = token →
      match (handle codec (run codec service before) ⟨.commit request, now, uuid⟩).1 with
      | .ok _ => ∀ database,
        validateTransaction (run codec service calls).store database token ≠ .ok ()
      | .error _ => ∀ database,
        validateTransaction (run codec service (before ++ [⟨.commit request, now, uuid⟩])).store
          database token =
        validateTransaction (run codec service before).store database token) ∧
    (∀ before call after response, calls = before ++ call :: after →
      (handle codec (run codec service before) call).1 = .ok response →
      token ∈ response.tokens → call.issued.isSome ∧ call.uuid = token) := by
  refine ⟨validateTransaction_run h0 hf ht, ?_, ?_⟩
  · rintro before request now uuid after rfl rfl
    have hstep := handle_transactions codec (run codec service before)
      ⟨.commit request, now, uuid⟩
    split
    · rename_i hok
      exact committed_token_dead h0 hf ht hok
    · rename_i herror
      intro database
      rw [herror] at hstep
      dsimp only [Call.issued] at hstep
      rw [run_append, run_cons, run_nil]
      unfold validateTransaction
      rw [hstep]
  · rintro before call after response - hok hm
    exact handle_tokens hok hm

/-- A token that is opened, survives a refused commit and is spent by the next one. -/
theorem token_single_use_sample :
    let opening : Call := ⟨.beginTransaction sampleDatabase, sampleTime 1, [7]⟩
    let refused : Call := ⟨.commit ⟨sampleDatabase, [⟨none, none, none, []⟩], [7]⟩, sampleTime 2, []⟩
    let spending : Call := ⟨.commit ⟨sampleDatabase, [], [7]⟩, sampleTime 3, []⟩
    validateTransaction (run plainCodec sampleMemory [opening, refused]).store sampleDatabase [7] =
      .ok () ∧
    validateTransaction (run plainCodec sampleMemory [opening, refused, spending]).store
      sampleDatabase [7] ≠ .ok () ∧
    opening.uuid = [7] := by
  intro opening refused spending
  have hf : FreshTokens [opening, refused, spending] := by
    show List.Nodup [[(7 : UInt8)]]
    decide
  have hf' : FreshTokens [opening, refused] := hf
  have h0 : sampleMemory.store.transactions = ∅ := rfl
  have ht : ([7] : Bytes) ≠ [] := by decide
  obtain ⟨hpasses, -, -⟩ := token_single_use plainCodec h0 hf' ht
  obtain ⟨-, hspent, hreturned⟩ := token_single_use plainCodec h0 hf ht
  refine ⟨(hpasses sampleDatabase).mpr ⟨[], _, _, rfl, ⟨rfl, rfl⟩, ?_⟩,
    hspent [opening, refused] _ _ _ [] rfl rfl sampleDatabase,
    (hreturned [] opening [refused, spending] (.beginTransaction [7]) rfl rfl
      (List.mem_singleton_self _)).2⟩
  intro later hm
  obtain rfl := List.mem_singleton.mp hm
  rintro ⟨hok, -⟩
  exact Bool.noConfusion hok

end FirebaseEmu.Firestore
