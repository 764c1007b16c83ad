import Mathlib

namespace FirebaseEmu.DataDirectory

def maxReaders : Nat := 8

/-- Where a read stands: its future waits for a permit or has one, or its job is on a blocking
thread, with or without the future. A read whose future went away before the job is dropped. -/
inductive ReadStage where
  | waiting
  | granted
  | running (attended : Bool)
  | done
  | dropped
  deriving DecidableEq

structure Read where
  inner : Nat
  stage : ReadStage

/-- What the handles of an open directory share: the count of references to it and its free
permits. `handles` counts the references that are values of `Persistence`. -/
structure Inner where
  references : Nat
  permits : Nat
  handles : Nat

/-- A data directory: who has its lock file locked, whatever was opened on it by any process, and
all reads that were asked for, in the order in which they were. -/
structure Directory where
  owner : Option Nat
  inners : List Inner
  reads : List Read

inductive OpenError where
  | alreadyOwned
  | database
  deriving DecidableEq

/-- A process opens the directory, whose database it may refuse. A handle is cloned or dropped. A
read is asked for, starts its job, loses its future, or ends its job. A process ends. -/
inductive DirectoryEvent where
  | openDirectory (accepted : Bool)
  | clone (i : Nat)
  | drop (i : Nat)
  | read (i : Nat)
  | spawn (j : Nat)
  | cancel (j : Nat)
  | finish (j : Nat)
  | exit (i : Nat)

def Read.waitsOn (i : Nat) (read : Read) : Bool := read.inner = i && read.stage = .waiting

/-- The read has a permit. -/
def Read.holds (i : Nat) (read : Read) : Bool :=
  read.inner = i && match read.stage with
    | .granted | .running _ => true
    | _ => false

/-- The read has a reference. -/
def Read.refers (i : Nat) (read : Read) : Bool := read.waitsOn i || read.holds i

/-- SQLite works for the read. -/
def Read.works (read : Read) : Bool :=
  match read.stage with
  | .running _ => true
  | _ => false

namespace Directory

def empty : Directory := ⟨none, [], []⟩

def openBlocking (d : Directory) (accepted : Bool) : Except OpenError Nat × Directory :=
  match d.owner with
  | some _ => (.error .alreadyOwned, d)
  | none =>
    if accepted then
      (.ok d.inners.length, { d with
        owner := some d.inners.length
        inners := d.inners ++ [⟨1, maxReaders, 1⟩] })
    else (.error .database, d)

def setInner (d : Directory) (i : Nat) (inner : Inner) : Directory :=
  { d with inners := d.inners.set i inner }

def setStage (d : Directory) (j i : Nat) (stage : ReadStage) : Directory :=
  { d with reads := d.reads.set j ⟨i, stage⟩ }

/-- The last reference closes the lock file. -/
def dropReference (d : Directory) (i : Nat) (inner : Inner) : Directory :=
  { d.setInner i { inner with references := inner.references - 1 } with
    owner := if inner.references = 1 ∧ d.owner = some i then none else d.owner }

/-- A permit goes to the read that has waited longest, if one waits. -/
def releasePermit (d : Directory) (i : Nat) (inner : Inner) : Directory :=
  match d.reads.findIdx? (Read.waitsOn i) with
  | some j => d.setStage j i .granted
  | none => d.setInner i { inner with permits := inner.permits + 1 }

/-- A read that is over gives back what it has. -/
def endRead (d : Directory) (j i : Nat) (stage : ReadStage) (permit : Bool) : Directory :=
  let d := d.setStage j i stage
  let d := if permit then
    match d.inners[i]? with
    | some inner => d.releasePermit i inner
    | none => d
  else d
  match d.inners[i]? with
  | some inner => d.dropReference i inner
  | none => d

def step (d : Directory) : DirectoryEvent → Directory
  | .openDirectory accepted => (d.openBlocking accepted).2
  | .clone i =>
    match d.inners[i]? with
    | some inner =>
      if 0 < inner.handles then
        d.setInner i { inner with
          references := inner.references + 1
          handles := inner.handles + 1 }
      else d
    | none => d
  | .drop i =>
    match d.inners[i]? with
    | some inner =>
      if 0 < inner.handles then d.dropReference i { inner with handles := inner.handles - 1 }
      else d
    | none => d
  | .read i =>
    match d.inners[i]? with
    | some inner =>
      if 0 < inner.handles then
        if 0 < inner.permits then
          { d.setInner i { inner with
              references := inner.references + 1
              permits := inner.permits - 1 } with
            reads := d.reads ++ [⟨i, .granted⟩] }
        else
          { d.setInner i { inner with references := inner.references + 1 } with
            reads := d.reads ++ [⟨i, .waiting⟩] }
      else d
    | none => d
  | .spawn j =>
    match d.reads[j]? with
    | some ⟨i, .granted⟩ => d.setStage j i (.running true)
    | _ => d
  | .cancel j =>
    match d.reads[j]? with
    | some ⟨i, .waiting⟩ => d.endRead j i .dropped false
    | some ⟨i, .granted⟩ => d.endRead j i .dropped true
    | some ⟨i, .running true⟩ => d.setStage j i (.running false)
    | _ => d
  | .finish j =>
    match d.reads[j]? with
    | some ⟨i, .running _⟩ => d.endRead j i .done true
    | _ => d
  | .exit i =>
    match d.inners[i]? with
    | some _ =>
      { owner := if d.owner = some i then none else d.owner
        inners := d.inners.set i ⟨0, maxReaders, 0⟩
        reads := d.reads.map fun read =>
          if read.refers i then ⟨i, .dropped⟩ else read }
    | none => d

end Directory

/-- What holds of one open directory, where `lent` references and `lost` permits are on their way
back. -/
structure Inner.Sound (inner : Inner) (i : Nat) (reads : List Read) (owner : Option Nat)
    (lent lost : Nat) : Prop where
  references : inner.references = inner.handles + reads.countP (Read.refers i) + lent
  permits : inner.permits + reads.countP (Read.holds i) + lost = maxReaders
  /-- A permit is free only while no read waits. -/
  free : 0 < inner.permits → reads.countP (Read.waitsOn i) = 0
  owner : 0 < inner.references ↔ owner = some i

/-- No read is served before one that was asked for earlier. -/
def InTurn (reads : List Read) : Prop :=
  ∀ (j k : Nat) (read later : Read), j < k → reads[j]? = some read → reads[k]? = some later →
    read.stage = .waiting → later.inner = read.inner → later.stage = .waiting ∨ later.stage = .dropped

/-- The invariant of a data directory, where the open directory `i` has the debts. -/
structure Directory.Sound (d : Directory) (i lent lost : Nat) : Prop where
  inners : ∀ (k : Nat) (inner : Inner), d.inners[k]? = some inner →
    inner.Sound k d.reads d.owner (if k = i then lent else 0) (if k = i then lost else 0)
  known : ∀ read ∈ d.reads, read.inner < d.inners.length
  owned : ∀ k, d.owner = some k → k < d.inners.length
  inTurn : InTurn d.reads

section Counts
variable {reads : List Read} {i j k : Nat} {old : Read}

theorem countP_set (p : Read → Bool) (h : reads[j]? = some old) (new : Read) :
    (reads.set j new).countP p + (if p old then 1 else 0) =
      reads.countP p + (if p new then 1 else 0) := by
  obtain ⟨hj, hold⟩ := List.getElem?_eq_some_iff.mp h
  rw [List.countP_set hj, hold]
  split
  · rename_i hp
    have := List.countP_pos_iff.mpr ⟨old, List.mem_of_getElem? h, hp⟩
    omega
  · omega

theorem waitsOn_other (h : i ≠ k) (stage : ReadStage) : Read.waitsOn k ⟨i, stage⟩ = false := by
  simp [Read.waitsOn, h]

theorem holds_other (h : i ≠ k) (stage : ReadStage) : Read.holds k ⟨i, stage⟩ = false := by
  simp [Read.holds, h]

theorem refers_other (h : i ≠ k) (stage : ReadStage) : Read.refers k ⟨i, stage⟩ = false := by
  simp [Read.refers, waitsOn_other h, holds_other h]

@[simp] theorem waitsOn_self (i : Nat) (stage : ReadStage) :
    Read.waitsOn i ⟨i, stage⟩ = decide (stage = .waiting) := by
  simp [Read.waitsOn]

theorem Read.refers_of_waitsOn {read : Read} (h : read.waitsOn i = true) : read.refers i = true := by
  rw [Read.refers, h, Bool.true_or]

theorem Read.refers_of_holds {read : Read} (h : read.holds i = true) : read.refers i = true := by
  rw [Read.refers, h, Bool.or_true]

theorem Read.inner_of_refers {read : Read} (h : read.refers i = true) : read.inner = i := by
  by_contra hne
  rw [show read = ⟨read.inner, read.stage⟩ from rfl, refers_other hne] at h
  cases h

theorem InTurn.set {s t : ReadStage} (h : InTurn reads) (hj : reads[j]? = some ⟨i, s⟩)
    (hwait : t ≠ .waiting) (hearlier : t = .dropped ∨ ∀ (m : Nat) (read : Read), m < j →
      reads[m]? = some read → read.inner = i → read.stage ≠ .waiting) :
    InTurn (reads.set j ⟨i, t⟩) := by
  intro m n read later hmn hm hn hwaiting hinner
  rw [List.getElem?_set] at hm hn
  have hlen := (List.getElem?_eq_some_iff.mp hj).1
  by_cases hjm : j = m
  · rw [if_pos hjm, if_pos (hjm ▸ hlen)] at hm
    obtain rfl := Option.some.inj hm
    exact absurd hwaiting hwait
  rw [if_neg hjm] at hm
  by_cases hjn : j = n
  · rw [if_pos hjn, if_pos (hjn ▸ hlen)] at hn
    obtain rfl := Option.some.inj hn
    rcases hearlier with rfl | hearlier
    · exact .inr rfl
    · exact absurd hwaiting (hearlier m read (hjn ▸ hmn) hm hinner.symm)
  · rw [if_neg hjn] at hn
    exact h m n read later hmn hm hn hwaiting hinner

/-- Before a read that was served, none waits. -/
theorem InTurn.served {s : ReadStage} (h : InTurn reads) (hj : reads[j]? = some ⟨i, s⟩)
    (hs : s ≠ .waiting ∧ s ≠ .dropped) (m : Nat) (read : Read) (hm : m < j)
    (hread : reads[m]? = some read) (hinner : read.inner = i) : read.stage ≠ .waiting := by
  intro hwaiting
  rcases h m j read _ hm hread hj hwaiting hinner.symm with he | he
  · exact hs.1 he
  · exact hs.2 he

theorem InTurn.append {read : Read} (h : InTurn reads)
    (hread : read.stage = .waiting ∨ reads.countP (Read.waitsOn read.inner) = 0) :
    InTurn (reads ++ [read]) := by
  intro m n earlier later hmn hm hn hwaiting hinner
  rw [List.getElem?_append] at hm hn
  by_cases hn' : n < reads.length
  · rw [if_pos hn'] at hn
    rw [if_pos (by omega)] at hm
    exact h m n earlier later hmn hm hn hwaiting hinner
  · rw [if_neg hn'] at hn
    have hlater : later = read := by
      obtain ⟨hlt, he⟩ := List.getElem?_eq_some_iff.mp hn
      simp at he
      exact he.symm
    subst hlater
    by_cases hm' : m < reads.length
    · rw [if_pos hm'] at hm
      rcases hread with hread | hread
      · exact .inl hread
      · refine absurd ?_ (List.countP_eq_zero.mp hread _ (List.mem_of_getElem? hm))
        simp [Read.waitsOn, hwaiting, hinner]
    · rw [if_neg hm'] at hm
      have := (List.getElem?_eq_some_iff.mp hm).1
      have := (List.getElem?_eq_some_iff.mp hn).1
      simp at *
      omega

theorem countP_arrived (p : Read → Bool) (reads : List Read) (read : Read) :
    (reads ++ [read]).countP p = reads.countP p + if p read then 1 else 0 := by
  rw [List.countP_append, List.countP_singleton]

/-- No read refers to a directory that is yet to be opened. -/
theorem countP_unopened {p : Read → Bool} (hreads : ∀ read ∈ reads, read.inner < i)
    (hp : ∀ read, p read = true → read.refers i = true) : reads.countP p = 0 := by
  refine List.countP_eq_zero.mpr fun read hm ht => ?_
  have := hreads read hm
  have := Read.inner_of_refers (hp read ht)
  omega

/-- The reads after the process that had `i` open ended. -/
def exited (i : Nat) (reads : List Read) : List Read :=
  reads.map fun read => if read.refers i then ⟨i, .dropped⟩ else read

theorem countP_exited_self (reads : List Read) {p : Read → Bool}
    (hp : ∀ read, p read = true → read.refers i = true) (hdropped : p ⟨i, .dropped⟩ = false) : (exited i reads).countP p = 0 := by
  refine List.countP_eq_zero.mpr fun read hm => ?_
  obtain ⟨old, -, rfl⟩ := List.mem_map.mp hm
  split
  · simp [hdropped]
  · rename_i hold
    exact fun ht => hold (hp _ ht)

theorem countP_exited_other (reads : List Read) {p : Read → Bool} (hik : i ≠ k)
    (hp : ∀ read, p read = true → read.refers k = true) :
    (exited i reads).countP p = reads.countP p := by
  unfold exited
  rw [List.countP_map]
  refine List.countP_congr fun read _ => ?_
  dsimp only [Function.comp]
  split
  · rename_i hrefers
    have hinner := Read.inner_of_refers hrefers
    constructor
    · exact fun ht => absurd (Read.inner_of_refers (hp _ ht)) hik
    · exact fun ht => absurd (hinner.symm.trans (Read.inner_of_refers (hp _ ht))) hik
  · rfl

theorem InTurn.exited (h : InTurn reads) (i : Nat) : InTurn (exited i reads) := by
  intro m n read later hmn hm hn hwaiting hinner
  unfold DataDirectory.exited at hm hn
  rw [List.getElem?_map, Option.map_eq_some_iff] at hm hn
  obtain ⟨old, hold, rfl⟩ := hm
  obtain ⟨last, hlast, rfl⟩ := hn
  split at hwaiting
  · cases hwaiting
  · rename_i hnot
    rw [if_neg hnot] at hinner
    by_cases hrefers : last.refers i = true
    · rw [if_pos hrefers]
      exact .inr rfl
    · rw [if_neg hrefers] at hinner ⊢
      exact h m n old last hmn hold hlast hwaiting hinner

end Counts

namespace Directory
variable {d : Directory} {i j k lent lost : Nat} {inner : Inner}

theorem Sound.free_of_debts (h : d.Sound i 0 0) (k : Nat) : d.Sound k 0 0 :=
  { h with inners := fun m inner hm => by simpa using h.inners m inner hm }

theorem Sound.setStage {s t : ReadStage} {lentAfter lostAfter : Nat} (h : d.Sound i lent lost)
    (hj : d.reads[j]? = some ⟨i, s⟩)
    (hlent : lentAfter + (if Read.refers i ⟨i, t⟩ then 1 else 0) =
      lent + (if Read.refers i ⟨i, s⟩ then 1 else 0))
    (hlost : lostAfter + (if Read.holds i ⟨i, t⟩ then 1 else 0) =
      lost + (if Read.holds i ⟨i, s⟩ then 1 else 0))
    (hwait : t ≠ .waiting) (hturn : InTurn (d.reads.set j ⟨i, t⟩)) :
    (d.setStage j i t).Sound i lentAfter lostAfter := by
  refine ⟨fun k inner hk => ?_, fun read hm => ?_, h.owned, hturn⟩
  · have hs := h.inners k inner hk
    have hrefers := countP_set (Read.refers k) hj ⟨i, t⟩
    have hholds := countP_set (Read.holds k) hj ⟨i, t⟩
    have hwaits := countP_set (Read.waitsOn k) hj ⟨i, t⟩
    have hr := hs.references
    have hp := hs.permits
    by_cases hki : k = i
    · subst hki
      rw [if_pos rfl] at hr hp
      refine ⟨?_, ?_, fun hfree => ?_, hs.owner⟩
      · rw [if_pos rfl]
        change inner.references = inner.handles + (d.reads.set j ⟨k, t⟩).countP _ + lentAfter
        omega
      · rw [if_pos rfl]
        change inner.permits + (d.reads.set j ⟨k, t⟩).countP _ + lostAfter = maxReaders
        omega
      · have hnone := hs.free hfree
        have hserved : Read.waitsOn k ⟨k, t⟩ = false := by simpa using hwait
        simp only [hserved, Bool.false_eq_true, if_false] at hwaits
        change (d.reads.set j ⟨k, t⟩).countP _ = 0
        omega
    · have hik : i ≠ k := fun he => hki he.symm
      rw [refers_other hik, refers_other hik] at hrefers
      rw [holds_other hik, holds_other hik] at hholds
      rw [waitsOn_other hik, waitsOn_other hik] at hwaits
      rw [if_neg hki] at hr hp
      refine ⟨?_, ?_, fun hfree => ?_, hs.owner⟩
      · rw [if_neg hki]
        change inner.references = inner.handles + (d.reads.set j ⟨i, t⟩).countP _ + 0
        omega
      · rw [if_neg hki]
        change inner.permits + (d.reads.set j ⟨i, t⟩).countP _ + 0 = maxReaders
        omega
      · have hnone := hs.free hfree
        change (d.reads.set j ⟨i, t⟩).countP _ = 0
        omega
  · rcases List.mem_or_eq_of_mem_set hm with hm | rfl
    · exact h.known read hm
    · exact h.known ⟨i, s⟩ (List.mem_of_getElem? hj)

@[simp] theorem setInner_length (d : Directory) (i : Nat) (inner : Inner) :
    (d.setInner i inner).inners.length = d.inners.length := List.length_set

/-- The instance changes, and nothing else. -/
theorem Sound.setInner {changed : Inner} {lentAfter lostAfter : Nat} (h : d.Sound i lent lost)
    (hi : d.inners[i]? = some inner) (hs : changed.Sound i d.reads d.owner lentAfter lostAfter) :
    (d.setInner i changed).Sound i lentAfter lostAfter := by
  refine ⟨fun k other hk => ?_, fun read hm => ?_, fun k hk => ?_, h.inTurn⟩
  · have hlen := (List.getElem?_eq_some_iff.mp hi).1
    rw [show (d.setInner i changed).inners = d.inners.set i changed from rfl,
      List.getElem?_set] at hk
    by_cases hki : i = k
    · subst hki
      rw [if_pos rfl, if_pos hlen] at hk
      obtain rfl := Option.some.inj hk
      rw [if_pos rfl, if_pos rfl]
      exact hs
    · rw [if_neg hki] at hk
      have hother := h.inners k other hk
      rw [if_neg (fun he => hki he.symm), if_neg (fun he => hki he.symm)] at hother ⊢
      exact hother
  · rw [setInner_length]
    exact h.known read hm
  · rw [setInner_length]
    exact h.owned k hk

theorem Sound.dropReference (h : (d.setInner i inner).Sound i 1 0) (hi : i < d.inners.length) :
    (d.dropReference i inner).Sound i 0 0 := by
  have hset : (d.setInner i inner).inners[i]? = some inner := List.getElem?_set_self hi
  have hs := h.inners i inner hset
  have hr := hs.references
  have hown := hs.owner
  rw [if_pos rfl] at hr
  refine ⟨fun k other hk => ?_, fun read hm => ?_, fun k hk => ?_, h.inTurn⟩
  · have hk : (d.inners.set i { inner with references := inner.references - 1 })[k]? =
      some other := hk
    rw [List.getElem?_set] at hk
    rw [ite_self]
    by_cases hki : i = k
    · subst hki
      rw [if_pos rfl, if_pos hi] at hk
      obtain rfl := Option.some.inj hk
      have hp := hs.permits
      rw [ite_self] at hp
      refine ⟨?_, hp, hs.free, ?_⟩
      · change inner.references - 1 = inner.handles + d.reads.countP _ + 0
        change inner.references = inner.handles + d.reads.countP _ + 1 at hr
        omega
      · change 0 < inner.references - 1 ↔
          (if inner.references = 1 ∧ d.owner = some i then none else d.owner) = some i
        change 0 < inner.references ↔ d.owner = some i at hown
        have howner := hown.mp (by omega)
        split
        · rename_i hlast
          simp [hlast.1]
        · rename_i hmore
          simp only [howner, and_true] at hmore
          simp only [howner, iff_true]
          omega
    · rw [if_neg hki] at hk
      have hother := h.inners k other
        (show (d.inners.set i inner)[k]? = some other by rw [List.getElem?_set, if_neg hki, hk])
      rw [if_neg (fun he => hki he.symm), if_neg (fun he => hki he.symm)] at hother
      refine ⟨hother.references, hother.permits, hother.free, ?_⟩
      change 0 < other.references ↔
        (if inner.references = 1 ∧ d.owner = some i then none else d.owner) = some k
      have hok : 0 < other.references ↔ d.owner = some k := hother.owner
      split
      · rename_i hlast
        rw [hok, hlast.2]
        simp [hki]
      · exact hok
  · have hlen : (d.dropReference i inner).inners.length = d.inners.length := setInner_length d i _
    rw [hlen]
    simpa using h.known read hm
  · have hk : (if inner.references = 1 ∧ d.owner = some i then none else d.owner) = some k := hk
    split at hk
    · cases hk
    · have hlen : (d.dropReference i inner).inners.length = d.inners.length :=
        setInner_length d i _
      rw [hlen]
      simpa using h.owned k hk

theorem Sound.releasePermit (h : d.Sound i lent 1) (hi : d.inners[i]? = some inner) :
    (d.releasePermit i inner).Sound i lent 0 := by
  unfold Directory.releasePermit
  have hs := h.inners i inner hi
  rw [if_pos rfl, if_pos rfl] at hs
  cases hfind : d.reads.findIdx? (Read.waitsOn i) with
  | some j =>
    obtain ⟨hj, hwaits, hfirst⟩ := List.findIdx?_eq_some_iff_getElem.mp hfind
    have hread : d.reads[j]? = some ⟨i, .waiting⟩ := by
      rw [List.getElem?_eq_getElem hj]
      have hboth : (d.reads[j]).inner = i ∧ (d.reads[j]).stage = .waiting := by
        simpa [Read.waitsOn] using hwaits
      rw [← hboth.1, ← hboth.2]
    refine h.setStage hread (by simp [Read.refers, Read.holds]) (by simp [Read.holds]) (by simp)
      (h.inTurn.set hread (by simp) (.inr fun m read hm hread hinner hwaiting => ?_))
    obtain ⟨hlen, he⟩ := List.getElem?_eq_some_iff.mp hread
    refine hfirst m hm ?_
    rw [he]
    simp [Read.waitsOn, hinner, hwaiting]
  | none =>
    refine h.setInner hi ⟨hs.references, ?_, fun _ => ?_, hs.owner⟩
    · have hp := hs.permits
      dsimp only
      omega
    · refine List.countP_eq_zero.mpr fun read hm => ?_
      simp [List.findIdx?_eq_none_iff.mp hfind read hm]

@[simp] theorem setStage_inners (d : Directory) (j i : Nat) (stage : ReadStage) :
    (d.setStage j i stage).inners = d.inners := rfl

theorem releasePermit_inners (d : Directory) (i : Nat) (inner : Inner)
    (hi : d.inners[i]? = some inner) :
    ∃ freed, (d.releasePermit i inner).inners[i]? = some freed := by
  unfold Directory.releasePermit
  split
  · exact ⟨inner, hi⟩
  · exact ⟨_, List.getElem?_set_self (List.getElem?_eq_some_iff.mp hi).1⟩

theorem setInner_self (hi : d.inners[i]? = some inner) : d.setInner i inner = d := by
  obtain ⟨hlen, he⟩ := List.getElem?_eq_some_iff.mp hi
  unfold Directory.setInner
  rw [← he, List.set_getElem_self]

/-- A read that is over leaves no debts. -/
theorem Sound.endRead {s t : ReadStage} {permit : Bool} (h : d.Sound i 0 0)
    (hj : d.reads[j]? = some ⟨i, s⟩) (hpermit : Read.holds i ⟨i, s⟩ = permit)
    (hrefers : Read.refers i ⟨i, s⟩ = true) (hover : Read.refers i ⟨i, t⟩ = false)
    (hturn : InTurn (d.reads.set j ⟨i, t⟩)) :
    (d.endRead j i t permit).Sound i 0 0 := by
  have hlen := h.known _ (List.mem_of_getElem? hj)
  have hi : d.inners[i]? = some d.inners[i] := List.getElem?_eq_getElem hlen
  have hidle : Read.waitsOn i ⟨i, t⟩ = false ∧ Read.holds i ⟨i, t⟩ = false := by
    simpa [Read.refers] using hover
  have hwait : t ≠ .waiting := by simpa using hidle.1
  unfold Directory.endRead
  dsimp only
  cases permit with
  | false =>
    have hstage : (d.setStage j i t).Sound i 1 0 :=
      h.setStage hj (by simp [hrefers, hover]) (by simp [hpermit, hidle.2]) hwait hturn
    simp only [Bool.false_eq_true, if_false, setStage_inners, hi]
    refine Sound.dropReference ?_ hlen
    rwa [setInner_self (d := d.setStage j i t) hi]
  | true =>
    have hstage : (d.setStage j i t).Sound i 1 1 :=
      h.setStage hj (by simp [hrefers, hover]) (by simp [hpermit, hidle.2]) hwait hturn
    simp only [if_true, setStage_inners, hi]
    have hreleased := hstage.releasePermit hi
    obtain ⟨freed, hfreed⟩ := releasePermit_inners (d.setStage j i t) i _ hi
    rw [hfreed]
    dsimp only
    refine Sound.dropReference ?_ (List.getElem?_eq_some_iff.mp hfreed).1
    rwa [setInner_self hfreed]

theorem Sound.openBlocking (h : d.Sound i 0 0) (accepted : Bool) :
    (d.openBlocking accepted).2.Sound i 0 0 := by
  unfold Directory.openBlocking
  cases howner : d.owner with
  | some k => exact h
  | none =>
    cases accepted with
    | false => exact h
    | true =>
      rw [if_pos rfl]
      refine ⟨fun k inner hk => ?_, fun read hm => ?_, fun k hk => ?_, h.inTurn⟩
      · have hk : (d.inners ++ [⟨1, maxReaders, 1⟩])[k]? = some inner := hk
        rw [List.getElem?_append] at hk
        rw [ite_self]
        split at hk
        · rename_i hlt
          have hs := h.inners k inner hk
          rw [ite_self, howner] at hs
          have hgone := hs.owner
          refine ⟨hs.references, hs.permits, hs.free, ?_⟩
          dsimp only
          simp only [reduceCtorEq, iff_false] at hgone
          simp only [Option.some.injEq]
          omega
        · rename_i hge
          have hkeq : k = d.inners.length ∧ inner = ⟨1, maxReaders, 1⟩ := by
            obtain ⟨hlt, he⟩ := List.getElem?_eq_some_iff.mp hk
            simp at hlt he
            exact ⟨by omega, he.symm⟩
          obtain ⟨rfl, rfl⟩ := hkeq
          have hw := countP_unopened h.known fun _ => Read.refers_of_waitsOn
          have hh := countP_unopened h.known fun _ => Read.refers_of_holds
          have hr := countP_unopened h.known fun _ => id
          refine ⟨?_, ?_, fun _ => hw, ?_⟩
          · dsimp only
            rw [hr]
          · dsimp only
            rw [hh]
            rfl
          · simp
      · have := h.known read hm
        simp only [List.length_append, List.length_cons, List.length_nil]
        omega
      · have hk : some d.inners.length = some k := hk
        obtain rfl := Option.some.inj hk
        simp

/-- A read is asked for, and gets a permit if one is free. -/
theorem Sound.arrive {stage : ReadStage} (h : d.Sound i 0 0) (hi : d.inners[i]? = some inner)
    (hhandles : 0 < inner.handles) {permits : Nat}
    (hstage : stage = .granted ∧ inner.permits = permits + 1 ∨
      stage = .waiting ∧ inner.permits = 0 ∧ permits = 0) :
    ({ d.setInner i { inner with references := inner.references + 1, permits := permits } with
      reads := d.reads ++ [⟨i, stage⟩] } : Directory).Sound i 0 0 := by
  have hlen := (List.getElem?_eq_some_iff.mp hi).1
  have hs := h.inners i inner hi
  rw [ite_self] at hs
  refine ⟨fun k other hk => ?_, fun read hm => ?_, fun k hk => ?_, ?_⟩
  · have hk : (d.inners.set i { inner with
      references := inner.references + 1, permits := permits })[k]? = some other := hk
    rw [List.getElem?_set] at hk
    rw [ite_self]
    by_cases hki : i = k
    · subst hki
      rw [if_pos rfl, if_pos hlen] at hk
      obtain rfl := Option.some.inj hk
      have hr := hs.references
      have hp := hs.permits
      have hrefers : Read.refers i ⟨i, stage⟩ = true := by
        rcases hstage with ⟨rfl, -⟩ | ⟨rfl, -⟩ <;> simp [Read.refers, Read.holds]
      refine ⟨?_, ?_, fun hfree => ?_, ?_⟩
      · dsimp only
        rw [countP_arrived, hrefers, if_pos rfl]
        omega
      · dsimp only
        rw [countP_arrived]
        rcases hstage with ⟨rfl, hpermits⟩ | ⟨rfl, hnone, rfl⟩
        · simp only [Read.holds, decide_true, Bool.and_self, if_true]
          omega
        · simp only [Read.holds, Bool.and_false, Bool.false_eq_true, if_false]
          omega
      · dsimp only at hfree ⊢
        rcases hstage with ⟨rfl, hpermits⟩ | ⟨rfl, hnone, rfl⟩
        · rw [countP_arrived, hs.free (by omega), waitsOn_self]
          rfl
        · omega
      · have howner := hs.owner.mp (by omega)
        dsimp only [Directory.setInner]
        simp [howner]
    · rw [if_neg hki] at hk
      have hother := h.inners k other hk
      rw [ite_self] at hother
      refine ⟨?_, ?_, fun hfree => ?_, hother.owner⟩ <;> dsimp only <;>
        rw [countP_arrived]
      · rw [refers_other hki]
        exact hother.references
      · rw [holds_other hki]
        exact hother.permits
      · rw [waitsOn_other hki]
        exact hother.free hfree
  · have hlen' : (d.inners.set i { inner with
        references := inner.references + 1, permits := permits }).length = d.inners.length :=
      List.length_set
    rcases List.mem_append.mp hm with hm | hm
    · exact hlen' ▸ h.known read hm
    · obtain rfl := List.mem_singleton.mp hm
      exact hlen' ▸ hlen
  · exact (setInner_length d i _).symm ▸ h.owned k hk
  · refine h.inTurn.append ?_
    rcases hstage with ⟨-, hpermits⟩ | ⟨rfl, -⟩
    · exact .inr (hs.free (by omega))
    · exact .inl rfl

/-- The process that has it open ends. -/
theorem Sound.exit (h : d.Sound i 0 0) (hi : d.inners[i]? = some inner) :
    (d.step (.exit i)).Sound i 0 0 := by
  unfold Directory.step
  dsimp only
  rw [hi]
  dsimp only
  have hlen := (List.getElem?_eq_some_iff.mp hi).1
  refine ⟨fun k other hk => ?_, fun read hm => ?_, fun k hk => ?_, ?_⟩
  · dsimp only at hk ⊢
    rw [List.getElem?_set] at hk
    rw [ite_self]
    by_cases hki : i = k
    · subst hki
      rw [if_pos rfl, if_pos hlen] at hk
      obtain rfl := Option.some.inj hk
      have hw := countP_exited_self (i := i) d.reads
        (fun _ => Read.refers_of_waitsOn) (by simp)
      have hh := countP_exited_self (i := i) d.reads
        (fun _ => Read.refers_of_holds) (by simp [Read.holds])
      have hr := countP_exited_self (i := i) d.reads
        (fun _ => id) (by simp [Read.refers, Read.holds])
      refine ⟨?_, ?_, fun _ => hw, ?_⟩
      · change 0 = 0 + (exited i d.reads).countP _ + 0
        rw [hr]
      · change maxReaders + (exited i d.reads).countP _ + 0 = maxReaders
        rw [hh]
        rfl
      · dsimp only
        split
        · simp
        · rename_i hnot
          simp [hnot]
    · rw [if_neg hki] at hk
      have hother := h.inners k other hk
      rw [ite_self] at hother
      have hw := countP_exited_other d.reads hki fun _ => Read.refers_of_waitsOn
      have hh := countP_exited_other d.reads hki fun _ => Read.refers_of_holds
      have hr := countP_exited_other d.reads hki fun _ => id
      refine ⟨hr ▸ hother.references, hh ▸ hother.permits, fun hfree => hw ▸ hother.free hfree, ?_⟩
      have hok := hother.owner
      split
      · rename_i howner
        rw [hok, howner]
        simp [hki]
      · exact hok
  · dsimp only at hm ⊢
    rw [List.length_set]
    obtain ⟨old, hold, rfl⟩ := List.mem_map.mp hm
    split
    · exact hlen
    · exact h.known old hold
  · dsimp only at hk ⊢
    rw [List.length_set]
    split at hk
    · cases hk
    · exact h.owned k hk
  · exact h.inTurn.exited i

theorem Sound.step (h : d.Sound i 0 0) (event : DirectoryEvent) : (d.step event).Sound i 0 0 := by
  cases event with
  | openDirectory accepted => exact h.openBlocking accepted
  | clone k =>
    unfold Directory.step
    dsimp only
    cases hk : d.inners[k]? with
    | none => exact h
    | some inner =>
      dsimp only
      split
      · rename_i hhandles
        have hs := (h.free_of_debts k).inners k inner hk
        rw [ite_self] at hs
        have hr := hs.references
        have howner := hs.owner.mp (by omega)
        have hcloned : Inner.Sound { inner with
            references := inner.references + 1
            handles := inner.handles + 1 } k d.reads d.owner 0 0 :=
          ⟨by dsimp only; omega, hs.permits, hs.free, by simp [howner]⟩
        exact ((h.free_of_debts k).setInner hk hcloned).free_of_debts i
      · exact h
  | drop k =>
    unfold Directory.step
    dsimp only
    cases hk : d.inners[k]? with
    | none => exact h
    | some inner =>
      dsimp only
      split
      · rename_i hhandles
        have hs := (h.free_of_debts k).inners k inner hk
        rw [ite_self] at hs
        have hr := hs.references
        have hdropped : Inner.Sound { inner with handles := inner.handles - 1 }
            k d.reads d.owner 1 0 :=
          ⟨by dsimp only; omega, hs.permits, hs.free, hs.owner⟩
        exact (((h.free_of_debts k).setInner hk hdropped).dropReference
          (List.getElem?_eq_some_iff.mp hk).1).free_of_debts i
      · exact h
  | read k =>
    unfold Directory.step
    dsimp only
    cases hk : d.inners[k]? with
    | none => exact h
    | some inner =>
      dsimp only
      split
      · rename_i hhandles
        split
        · rename_i hpermits
          exact ((h.free_of_debts k).arrive hk hhandles
            (.inl ⟨rfl, (Nat.succ_pred_eq_of_pos hpermits).symm⟩)).free_of_debts i
        · rename_i hpermits
          have hzero : inner.permits = 0 := by omega
          have harrive := (h.free_of_debts k).arrive hk hhandles (.inr ⟨rfl, hzero, hzero⟩)
          exact harrive.free_of_debts i
      · exact h
  | spawn j =>
    unfold Directory.step
    dsimp only
    split
    · rename_i k hj
      exact ((h.free_of_debts k).setStage hj (by simp [Read.refers, Read.holds])
        (by simp [Read.holds]) (by simp)
        (h.inTurn.set hj (by simp) (.inr (h.inTurn.served hj (by simp))))).free_of_debts i
    · exact h
  | cancel j =>
    unfold Directory.step
    dsimp only
    split
    · rename_i k hj
      exact ((h.free_of_debts k).endRead hj (by simp [Read.holds]) (by simp [Read.refers])
        (by simp [Read.refers, Read.holds]) (h.inTurn.set hj (by simp) (.inl rfl))).free_of_debts i
    · rename_i k hj
      exact ((h.free_of_debts k).endRead hj (by simp [Read.holds]) (by simp [Read.refers, Read.holds])
        (by simp [Read.refers, Read.holds]) (h.inTurn.set hj (by simp) (.inl rfl))).free_of_debts i
    · rename_i k hj
      exact ((h.free_of_debts k).setStage hj (by simp [Read.refers, Read.holds])
        (by simp [Read.holds]) (by simp)
        (h.inTurn.set hj (by simp) (.inr (h.inTurn.served hj (by simp))))).free_of_debts i
    · exact h
  | finish j =>
    unfold Directory.step
    dsimp only
    split
    · rename_i k attended hj
      exact ((h.free_of_debts k).endRead hj (by simp [Read.holds]) (by simp [Read.refers, Read.holds])
        (by simp [Read.refers, Read.holds])
        (h.inTurn.set hj (by simp) (.inr (h.inTurn.served hj (by simp))))).free_of_debts i
    · exact h
  | exit k =>
    cases hk : d.inners[k]? with
    | none =>
      unfold Directory.step
      dsimp only
      rw [hk]
      exact h
    | some inner => exact ((h.free_of_debts k).exit hk).free_of_debts i

theorem empty_sound : empty.Sound 0 0 0 :=
  ⟨by simp [empty], by simp [empty], by simp [empty], by simp [empty, InTurn]⟩

theorem Sound.run (h : d.Sound i 0 0) (events : List DirectoryEvent) :
    (events.foldl Directory.step d).Sound i 0 0 := by
  induction events generalizing d with
  | nil => exact h
  | cons event events ih => exact ih (h.step event)

/-- What a data directory promises to the processes that use it. -/
structure Safe (d : Directory) : Prop where
  /-- It is locked for the process that has it open, as long as a handle or a read of it is left
  and no longer. -/
  owner : ∀ i, d.owner = some i ↔ ∃ inner, d.inners[i]? = some inner ∧
    (0 < inner.handles ∨ ∃ read ∈ d.reads, read.refers i = true)
  /-- SQLite works for its owner only, also where the caller has gone away. -/
  works : ∀ read ∈ d.reads, read.works = true → d.owner = some read.inner
  readers : d.reads.countP Read.works ≤ maxReaders
  /-- Whatever was cancelled, no permit is lost. -/
  permits : ∀ (i : Nat) (inner : Inner), d.inners[i]? = some inner →
    inner.permits + d.reads.countP (Read.holds i) = maxReaders
  /-- A read waits only for others that have all permits. -/
  waits : ∀ read ∈ d.reads, read.stage = .waiting →
    d.reads.countP (Read.holds read.inner) = maxReaders
  inTurn : InTurn d.reads

theorem Read.holds_of_works {read : Read} (h : read.works = true) : read.holds read.inner = true := by
  unfold Read.works at h
  unfold Read.holds
  split at h
  · rename_i hs
    simp [hs]
  · cases h

theorem Sound.referred (h : d.Sound i 0 0) {read : Read} (hm : read ∈ d.reads)
    (hr : read.refers read.inner = true) : d.owner = some read.inner := by
  have hlen := h.known read hm
  have hs := h.inners read.inner _ (List.getElem?_eq_getElem hlen)
  have hpos := List.countP_pos_iff.mpr ⟨read, hm, hr⟩
  have hrefs := hs.references
  exact hs.owner.mp (by omega)

theorem Sound.safe (h : d.Sound i 0 0) : d.Safe := by
  have hworks : ∀ read ∈ d.reads, read.works = true → d.owner = some read.inner :=
    fun read hm hw => h.referred hm (by simp [Read.refers, Read.holds_of_works hw])
  have hpermits : ∀ (i : Nat) (inner : Inner), d.inners[i]? = some inner →
      inner.permits + d.reads.countP (Read.holds i) = maxReaders := by
    intro k inner hk
    have hp := (h.inners k inner hk).permits
    rwa [ite_self, Nat.add_zero] at hp
  refine ⟨fun k => ⟨fun howner => ?_, ?_⟩, hworks, ?_, hpermits, fun read hm hw => ?_, h.inTurn⟩
  · have hlt := h.owned k howner
    have hk := List.getElem?_eq_getElem hlt
    have hs := h.inners k _ hk
    rw [ite_self] at hs
    have hpos := hs.owner.mpr howner
    have hrefs := hs.references
    refine ⟨_, hk, ?_⟩
    by_cases hhandles : 0 < d.inners[k].handles
    · exact .inl hhandles
    · exact .inr (List.countP_pos_iff.mp (by omega))
  · rintro ⟨inner, hk, hused⟩
    have hs := h.inners k inner hk
    have hrefs := hs.references
    refine hs.owner.mp ?_
    rcases hused with hhandles | hread
    · omega
    · have := List.countP_pos_iff.mpr hread
      omega
  · cases howner : d.owner with
    | none =>
      have hnone : d.reads.countP Read.works = 0 := List.countP_eq_zero.mpr fun read hm hw => by
        have := hworks read hm hw
        rw [howner] at this
        cases this
      omega
    | some k =>
      have hk := List.getElem?_eq_getElem (h.owned k howner)
      have hp := hpermits k _ hk
      have hle := List.countP_mono_left (l := d.reads) (p := Read.works) (q := Read.holds k)
        fun read hm hw => by
          have hinner := hworks read hm hw
          rw [howner] at hinner
          obtain rfl := Option.some.inj hinner
          exact Read.holds_of_works hw
      omega
  · have hk := List.getElem?_eq_getElem (h.known read hm)
    have hp := hpermits read.inner _ hk
    have hfree := (h.inners _ _ hk).free
    have hpos := List.countP_pos_iff.mpr
      (⟨read, hm, by simp [Read.waitsOn, hw]⟩ : ∃ r ∈ d.reads, Read.waitsOn read.inner r = true)
    by_contra hlt
    have := hfree (by omega)
    omega

/-- Any processes may open a data directory, clone and drop their handles, read, cancel their reads
and end, in any order: it has one owner at a time, which keeps it until the last job of its reads
is over, no more than eight reads are at work on it, no cancelled read costs a permit, and reads
are served in the order in which they were asked for. -/
theorem directory_safe (events : List DirectoryEvent) :
    (events.foldl Directory.step .empty).Safe :=
  (empty_sound.run events).safe

end Directory

end FirebaseEmu.DataDirectory
