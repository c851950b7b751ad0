import ExportVault.Commands

/-!
# Isolation of the users

What a user's requests are answered, and what becomes of the user's exports,
depends on the records and the user's own exports only; and the requests leave
the exports of others alone (`users_isolated`).
-/

namespace ExportVault

/-- The user has an export with the id. -/
def Owns (userId : String) (vault : Vault) (id : String) : Prop :=
  ∃ row ∈ vault.exports, row.job.userId = userId ∧ row.id = id

/-- The object belongs to an export of the user: it is its file, or lies under
its prefix. -/
def OwnsObject (userId : String) (vault : Vault) (key : String) : Prop :=
  ∃ row ∈ vault.exports, row.job.userId = userId ∧
    (row.job.fileKey = some key ∨
      hasPrefix ("exports/" ++ row.id ++ "/") key = true)

/-- The vaults agree on the records and on everything that belongs to the
user. -/
structure Agree (userId : String) (first second : Vault) : Prop where
  records : first.records = second.records
  owned : first.owned userId = second.owned userId
  queue : ∀ exportJobId, Owns userId first (canonical exportJobId) →
    first.queue exportJobId = second.queue exportJobId
  store : ∀ key, OwnsObject userId first key →
    first.store.get? key = second.store.get? key

/-- What does not belong to the user is the same after as before. -/
structure OthersUntouched (userId : String) (before after : Vault) :
    Prop where
  rows : (after.exports.filter fun row => row.job.userId ≠ userId) =
    before.exports.filter fun row => row.job.userId ≠ userId
  queue : ∀ exportJobId, ¬ Owns userId after (canonical exportJobId) →
    after.queue exportJobId = before.queue exportJobId
  store : after.store = before.store

/-- A generated id is new: it has no row, no queue entry and no object. -/
structure Unused (vault : Vault) (id : String) : Prop where
  noRow : ∀ row ∈ vault.exports, row.id ≠ id
  noEntry : ∀ exportJobId, canonical exportJobId = id →
    vault.queue exportJobId = none
  noObject : ∀ key, hasPrefix ("exports/" ++ id ++ "/") key = true →
    vault.store.get? key = none

variable {server : Server} {userId : String} {vault first second : Vault}
variable {exportJobId : String} {row : Export} {call : Call}
variable {env : Env} {world : World} {pc : ApiPc}

theorem Vault.mem_owned :
    row ∈ vault.owned userId ↔
      row ∈ vault.exports ∧ row.job.userId = userId := by
  simp [Vault.owned]

/-- Both vaults have the same rows of the user. -/
theorem Agree.mem_iff (agree : Agree userId first second)
    (mine : row.job.userId = userId) :
    row ∈ first.exports ↔ row ∈ second.exports := by
  have same : row ∈ first.owned userId ↔ row ∈ second.owned userId := by
    rw [agree.owned]
  simpa only [Vault.mem_owned, mine, and_true] using same

theorem Agree.owns_iff (agree : Agree userId first second) {id : String} :
    Owns userId first id ↔ Owns userId second id := by
  constructor
  · rintro ⟨row, member, mine, same⟩
    exact ⟨row, (agree.mem_iff mine).mp member, mine, same⟩
  · rintro ⟨row, member, mine, same⟩
    exact ⟨row, (agree.mem_iff mine).mpr member, mine, same⟩

/-- The lookup finds the user's row in both, when there is one. -/
theorem find_of_owns (owns : Owns userId vault (canonical exportJobId)) :
    ∃ row, vault.find exportJobId = some row ∧ row ∈ vault.exports ∧
      row.job.userId = userId ∧ row.id = canonical exportJobId := by
  obtain ⟨row, member, mine, same⟩ := owns
  exact ⟨row, Vault.find_eq_some_iff.mpr ⟨member, same⟩, member, mine, same⟩

/-- Rows that a map changes and that a filter drops before and after do not
show. -/
theorem filter_map_of_kept {rows : List Export} {change : Export → Export}
    (kept : ∀ row ∈ rows, change row = row ∨
      (row.job.userId = userId ∧ (change row).job.userId = userId)) :
    ((rows.map change).filter fun row => row.job.userId ≠ userId) =
      rows.filter fun row => row.job.userId ≠ userId := by
  induction rows with
  | nil => rfl
  | cons row rows inductionHypothesis =>
      have rest := inductionHypothesis fun other member =>
        kept other (List.mem_cons_of_mem _ member)
      rw [List.map_cons, List.filter_cons, List.filter_cons, rest]
      rcases kept row (List.mem_cons_self ..) with same | ⟨mine, sameUser⟩
      · rw [same]
      · simp [mine, sameUser]

/-- The command is one of the user, on an export of the user or on a new
one. -/
structure Admitted (userId : String) (vault : Vault) (exportJobId : String)
    (request : Request) : Prop where
  creator : ∀ user, request.begin.creator = some user → user = userId
  target : Owns userId vault (canonical exportJobId) ∨
    Unused vault (canonical exportJobId) ∧
      (request.begin.creates = true ∨ request.begin.ended = true)

/-- The command begins on behalf of the user. -/
theorem Admitted.onBehalf {request : Request} (now : Int)
    (admitted : Admitted userId vault exportJobId request) :
    ∃ fileKey,
      OnBehalf userId fileKey (vault.world now exportJobId)
        (vault.world now exportJobId) request.begin ∧
      ∀ row, vault.find exportJobId = some row →
        row.job.userId = userId ∧ row.job.fileKey = fileKey := by
  rcases admitted.target with owns | ⟨unused, creates⟩
  · obtain ⟨row, found, _, mine, _⟩ := find_of_owns owns
    have job : (vault.world now exportJobId).job = some row.job := by
      rw [Vault.world, found, Option.map_some]
    refine ⟨row.job.fileKey, ⟨fun other otherEq => ?_, admitted.creator,
      fun absent => ?_, fun present => present⟩, fun other otherFound => ?_⟩
    · obtain rfl := Option.some.inj (job.symm.trans otherEq)
      exact ⟨mine, rfl⟩
    · rw [job] at absent
      cases absent
    · obtain rfl := Option.some.inj (found.symm.trans otherFound)
      exact ⟨mine, rfl⟩
  · have none := Vault.find_eq_none_iff.mpr unused.noRow
    have job : (vault.world now exportJobId).job = Option.none := by
      rw [Vault.world, none, Option.map_none]
    refine ⟨Option.none, ⟨fun other otherEq => ?_, admitted.creator,
      fun _ => ⟨rfl, rfl, creates⟩, fun present => present⟩,
      fun other otherFound => ?_⟩
    · rw [job] at otherEq
      cases otherEq
    · rw [none] at otherFound
      cases otherFound

/-- A command leaves the owner and the file of the row. -/
theorem OnBehalf.row_kept {fileKey : Option String} {begun after : World}
    (command : OnBehalf userId fileKey begun after pc)
    (mine : row.job.userId = userId) (file : row.job.fileKey = fileKey) :
    (Vault.absorbRow call after row).job.userId = userId ∧
      (Vault.absorbRow call after row).job.fileKey = row.job.fileKey := by
  rw [Vault.absorbRow]
  cases found : after.job with
  | none => exact ⟨mine, rfl⟩
  | some job =>
      obtain ⟨sameUser, sameFile⟩ := command.job job found
      exact ⟨sameUser, sameFile.trans file.symm⟩

/-- The rows after a command: those of before, the row of the export
changed, and perhaps a new one. -/
inductive Absorbed (userId : String) (vault : Vault) (call : Call)
    (exportJobId : String) (after : World) : List Export → Prop
  | changed {row : Export} :
      vault.find exportJobId = some row → row.job.userId = userId →
      (Vault.absorbRow call after row).job.userId = userId →
      (Vault.absorbRow call after row).job.fileKey = row.job.fileKey →
      Absorbed userId vault call exportJobId after
        (vault.exports.map fun other =>
          if other.id = canonical exportJobId then
            Vault.absorbRow call after other
          else other)
  | inserted {job : ExportJob} :
      Unused vault (canonical exportJobId) → after.job = some job →
      job.userId = userId → job.fileKey = none →
      Absorbed userId vault call exportJobId after
        (vault.exports ++
          [{ id := canonical exportJobId, createdAt := call.now, job := job }])
  | unchanged :
      Unused vault (canonical exportJobId) →
      after = vault.world call.now exportJobId →
      Absorbed userId vault call exportJobId after vault.exports

theorem Admitted.absorbed {request : Request} (env : Env) (call : Call)
    (calls : Nat)
    (admitted : Admitted userId vault exportJobId request) :
    Absorbed userId vault call exportJobId
      (runCommand env calls (vault.world call.now exportJobId)
        request.begin).1
      (vault.absorbRows call exportJobId
        (runCommand env calls (vault.world call.now exportJobId)
          request.begin).1) := by
  obtain ⟨fileKey, begins, rowOwned⟩ := admitted.onBehalf call.now
  have command := onBehalf_runCommand env calls begins
  rw [Vault.absorbRows]
  cases found : vault.find exportJobId with
  | some row =>
      obtain ⟨mine, file⟩ := rowOwned row found
      obtain ⟨sameUser, sameFile⟩ := command.row_kept mine file
      exact .changed found mine sameUser sameFile
  | none =>
      have unused : Unused vault (canonical exportJobId) := by
        rcases admitted.target with owns | ⟨unused, _⟩
        · obtain ⟨row, there, _⟩ := find_of_owns owns
          rw [found] at there
          cases there
        · exact unused
      cases job : (runCommand env calls (vault.world call.now exportJobId)
          request.begin).1.job with
      | none => exact .unchanged unused (command.early job).1
      | some job' =>
          obtain ⟨mine, noFile⟩ := command.job job' job
          have absent : (vault.world call.now exportJobId).job = Option.none := by
            rw [Vault.world, found, Option.map_none]
          exact .inserted unused job mine
            (noFile.trans (begins.early absent).2.1)

/-- The rows of others are the same after a command. -/
theorem Absorbed.others {after : World} {rows : List Export}
    (absorbed : Absorbed userId vault call exportJobId after rows) :
    (rows.filter fun row => row.job.userId ≠ userId) =
      vault.exports.filter fun row => row.job.userId ≠ userId := by
  cases absorbed with
  | @changed row found mine sameUser _ =>
      have kept : ∀ other ∈ vault.exports,
          (if other.id = canonical exportJobId then
            Vault.absorbRow call after other else other) = other ∨
          (other.job.userId = userId ∧
            (if other.id = canonical exportJobId then
              Vault.absorbRow call after other
            else other).job.userId = userId) := by
        intro other inside
        by_cases same : other.id = canonical exportJobId
        · obtain rfl := Vault.eq_of_find found inside same
          exact .inr ⟨mine, by rw [if_pos same]; exact sameUser⟩
        · exact .inl (if_neg same)
      exact filter_map_of_kept kept
  | inserted _ _ mine _ =>
      rw [List.filter_append, List.filter_singleton]
      simp [mine]
  | unchanged => rfl

/-- The user still has the exports of before. -/
theorem Absorbed.owns {after : World} {rows : List Export}
    (absorbed : Absorbed userId vault call exportJobId after rows) {id : String}
    (owns : Owns userId vault id) :
    ∃ row ∈ rows, row.job.userId = userId ∧ row.id = id := by
  obtain ⟨row, member, mine, same⟩ := owns
  cases absorbed with
  | @changed target found _ sameUser _ =>
      refine ⟨_, List.mem_map_of_mem member, ?_⟩
      by_cases targeted : row.id = canonical exportJobId
      · obtain rfl := Vault.eq_of_find found member targeted
        rw [if_pos targeted]
        exact ⟨sameUser, same⟩
      · rw [if_neg targeted]
        exact ⟨mine, same⟩
  | inserted => exact ⟨row, List.mem_append_left _ member, mine, same⟩
  | unchanged => exact ⟨row, member, mine, same⟩

/-- A row of the user after a command was one before, with the same id and the
same file, or is the new row, which has no file. -/
theorem Absorbed.origin {after : World} {rows : List Export}
    (absorbed : Absorbed userId vault call exportJobId after rows)
    (member : row ∈ rows) :
    (∃ before ∈ vault.exports, row.id = before.id ∧
      (row.job.userId = userId → before.job.userId = userId ∧
        row.job.fileKey = before.job.fileKey)) ∨
    (row.id = canonical exportJobId ∧ row.job.userId = userId ∧
      row.job.fileKey = none ∧ Unused vault (canonical exportJobId)) := by
  cases absorbed with
  | @changed target found mine _ sameFile =>
      obtain ⟨before, beforeMember, rfl⟩ := List.mem_map.mp member
      refine .inl ⟨before, beforeMember, ?_⟩
      by_cases targeted : before.id = canonical exportJobId
      · obtain rfl := Vault.eq_of_find found beforeMember targeted
        rw [if_pos targeted]
        exact ⟨rfl, fun _ => ⟨mine, sameFile⟩⟩
      · rw [if_neg targeted]
        exact ⟨rfl, fun owner => ⟨owner, rfl⟩⟩
  | inserted unused _ mine noFile =>
      rcases List.mem_append.mp member with before | new
      · exact .inl ⟨row, before, rfl, fun owner => ⟨owner, rfl⟩⟩
      · obtain rfl := List.mem_singleton.mp new
        exact .inr ⟨rfl, mine, noFile, unused⟩
  | unchanged =>
      exact .inl ⟨row, member, rfl, fun owner => ⟨owner, rfl⟩⟩

/-- The rows of the user after a command are told by those before. -/
theorem Absorbed.mine {after : World} {rows : List Export}
    (absorbed : Absorbed userId vault call exportJobId after rows) :
    (rows.filter fun row => row.job.userId = userId) =
      ((vault.owned userId).map fun row =>
        if row.id = canonical exportJobId then Vault.absorbRow call after row
        else row) ++
      match vault.find exportJobId with
      | some _ => []
      | none => (after.job.map fun job =>
          { id := canonical exportJobId, createdAt := call.now,
            job := job : Export }).toList := by
  have untouched : Unused vault (canonical exportJobId) →
      ((vault.owned userId).map fun row =>
        if row.id = canonical exportJobId then Vault.absorbRow call after row
        else row) = vault.owned userId := by
    intro unused
    refine (List.map_congr_left fun row member => ?_).trans (List.map_id _)
    exact if_neg (unused.noRow row (Vault.mem_owned.mp member).1)
  cases absorbed with
  | @changed target found mine sameUser _ =>
      rw [found, List.append_nil, List.filter_map, Vault.owned]
      refine congrArg _ (List.filter_congr fun row member => ?_)
      by_cases targeted : row.id = canonical exportJobId
      · obtain rfl := Vault.eq_of_find found member targeted
        simp [targeted, sameUser, mine]
      · simp [targeted]
  | inserted unused job mine _ =>
      rw [untouched unused, Vault.find_eq_none_iff.mpr unused.noRow, job,
        List.filter_append, List.filter_singleton, Vault.owned]
      simp [mine]
  | unchanged unused same =>
      have absent := Vault.find_eq_none_iff.mpr unused.noRow
      have noJob : after.job = none := by
        rw [same, Vault.world, absent, Option.map_none]
      rw [untouched unused, absent, noJob]
      exact (List.append_nil _).symm

/-- The queue entry of an export that is still not the user's is as before. -/
theorem Absorbed.entry {after : World} {rows : List Export}
    (absorbed : Absorbed userId vault call exportJobId after rows)
    (foreign : ¬ ∃ row ∈ rows, row.job.userId = userId ∧
      row.id = canonical exportJobId) :
    after.entry = vault.queue exportJobId := by
  have owns : Owns userId vault (canonical exportJobId) →
      ∃ row ∈ rows, row.job.userId = userId ∧
        row.id = canonical exportJobId := absorbed.owns
  cases absorbed with
  | @changed target found mine _ _ =>
      obtain ⟨member, here⟩ := Vault.find_eq_some_iff.mp found
      exact absurd (owns ⟨target, member, mine, here⟩) foreign
  | inserted _ _ mine =>
      exact absurd ⟨_, List.mem_append_right _ (List.mem_singleton.mpr rfl),
        mine, rfl⟩ foreign
  | unchanged _ same => rw [same, Vault.world]

/-- What a request of the user leaves of a vault. -/
structure Kept (userId : String) (before after : Vault) : Prop where
  others : OthersUntouched userId before after
  owns : ∀ {id}, Owns userId before id → Owns userId after id
  unused : ∀ {id}, Unused before id → Unused after id ∨ Owns userId after id

theorem Kept.refl (userId : String) (vault : Vault) :
    Kept userId vault vault :=
  ⟨⟨rfl, fun _ _ => rfl, rfl⟩, id, .inl⟩

theorem Kept.trans {before middle after : Vault}
    (earlier : Kept userId before middle) (later : Kept userId middle after) :
    Kept userId before after := by
  refine ⟨⟨later.others.rows.trans earlier.others.rows,
    fun exportJobId foreign => ?_,
    later.others.store.trans earlier.others.store⟩,
    fun owns => later.owns (earlier.owns owns), fun unused => ?_⟩
  · exact (later.others.queue exportJobId foreign).trans
      (earlier.others.queue exportJobId fun owns => foreign (later.owns owns))
  · rcases earlier.unused unused with still | owns
    · exact later.unused still
    · exact .inr (later.owns owns)

theorem Admitted.kept {request : Request}
    (admitted : Admitted userId vault exportJobId request) :
    Kept userId vault (vault.command server call exportJobId request).1 := by
  have absorbed := admitted.absorbed
    { server.env with exportJobId := exportJobId } call request.begin.callsLeft
  have store := runCommand_store { server.env with exportJobId := exportJobId }
    request.begin.callsLeft (vault.world call.now exportJobId) request.begin
  simp only [Vault.command]
  generalize (runCommand { server.env with exportJobId := exportJobId }
    request.begin.callsLeft (vault.world call.now exportJobId)
    request.begin).1 = after at absorbed store
  have entryKept : ¬ Owns userId (vault.absorb call exportJobId after)
      (canonical exportJobId) → after.entry = vault.queue exportJobId :=
    fun foreign => absorbed.entry foreign
  refine ⟨⟨absorbed.others, fun other foreign => ?_, store⟩,
    fun owns => absorbed.owns owns, fun {id} unused => ?_⟩
  · by_cases here : other = exportJobId
    · subst here
      exact Vault.absorb_queue_self.trans (entryKept foreign)
    · exact Vault.absorb_queue_of_ne here
  · by_cases owned : Owns userId (vault.absorb call exportJobId after) id
    · exact .inr owned
    refine .inl ⟨fun row member same => ?_, fun other same => ?_, ?_⟩
    · rcases absorbed.origin member with
        ⟨before, inside, sameId, _⟩ | ⟨_, mine, _⟩
      · exact unused.noRow before inside (sameId.symm.trans same)
      · exact owned ⟨row, member, mine, same⟩
    · by_cases here : other = exportJobId
      · subst here
        rw [← same] at owned
        exact Vault.absorb_queue_self.trans
          ((entryKept owned).trans (unused.noEntry _ same))
      · exact (Vault.absorb_queue_of_ne here).trans (unused.noEntry _ same)
    · intro key under
      rw [Vault.absorb, store]
      exact unused.noObject key under

/-! ## One command on two vaults -/

/-- The id is that of an export of the user, or new to both vaults. -/
def Available (userId : String) (first second : Vault) (id : String) : Prop :=
  Owns userId first id ∨ (Unused first id ∧ Unused second id)

theorem Agree.find_eq (agree : Agree userId first second)
    (available : Available userId first second (canonical exportJobId)) :
    second.find exportJobId = first.find exportJobId := by
  rcases available with owns | ⟨firstUnused, secondUnused⟩
  · obtain ⟨row, found, member, mine, same⟩ := find_of_owns owns
    rw [found]
    exact Vault.find_eq_some_iff.mpr ⟨(agree.mem_iff mine).mp member, same⟩
  · rw [Vault.find_eq_none_iff.mpr firstUnused.noRow,
      Vault.find_eq_none_iff.mpr secondUnused.noRow]

theorem Agree.queue_eq (agree : Agree userId first second)
    (available : Available userId first second (canonical exportJobId)) :
    first.queue exportJobId = second.queue exportJobId := by
  rcases available with owns | ⟨firstUnused, secondUnused⟩
  · exact agree.queue exportJobId owns
  · rw [firstUnused.noEntry _ rfl, secondUnused.noEntry _ rfl]

/-- The queries of a command see the same, the other objects apart. -/
theorem Agree.world_eq (agree : Agree userId first second) (now : Int)
    (available : Available userId first second (canonical exportJobId)) :
    second.world now exportJobId =
      (first.world now exportJobId).withStore second.store := by
  simp only [Vault.world, World.withStore, agree.find_eq available,
    agree.queue_eq available, agree.records]

theorem Agree.sameReads (agree : Agree userId first second) (now : Int)
    (request : Request)
    (available : Available userId first second (canonical exportJobId)) :
    SameReads (first.world now exportJobId) second.store request.begin := by
  refine ⟨fun fileKey file => ?_, fun fileKey opens => ?_⟩
  · rcases available with owns | ⟨unused, _⟩
    · obtain ⟨row, found, member, mine, _⟩ := find_of_owns owns
      have named : row.job.fileKey = some fileKey := by
        rw [World.fileKey, Vault.world, found] at file
        exact file
      exact (agree.store fileKey ⟨row, member, mine, .inl named⟩).symm
    · rw [World.fileKey, Vault.world,
        Vault.find_eq_none_iff.mpr unused.noRow] at file
      cases file
  · have closed : request.begin.opens = none := by
      cases request with
      | create =>
          simp only [Request.begin]
          repeat' split
          all_goals rfl
      | _ => rfl
    rw [closed] at opens
    cases opens

/-- The vaults agree after a command that has done the same in both. -/
theorem Agree.absorb {after : World} (agree : Agree userId first second)
    (available : Available userId first second (canonical exportJobId))
    (firstAbsorbed : Absorbed userId first call exportJobId after
      (first.absorbRows call exportJobId after))
    (secondAbsorbed : Absorbed userId second call exportJobId
      (after.withStore second.store)
      (second.absorbRows call exportJobId (after.withStore second.store)))
    (firstStore : after.store = first.store) :
    Agree userId (first.absorb call exportJobId after)
      (second.absorb call exportJobId (after.withStore second.store)) := by
  have origin : ∀ row ∈ first.absorbRows call exportJobId after,
      row.job.userId = userId →
      (∃ before ∈ first.exports, before.job.userId = userId ∧
        row.id = before.id ∧ row.job.fileKey = before.job.fileKey) ∨
      (row.id = canonical exportJobId ∧ row.job.fileKey = none ∧
        Unused first (canonical exportJobId) ∧
        Unused second (canonical exportJobId)) := by
    intro row member mine
    rcases firstAbsorbed.origin member with
      ⟨before, inside, sameId, owner⟩ | ⟨new, _, noFile, unused⟩
    · exact .inl ⟨before, inside, (owner mine).1, sameId, (owner mine).2⟩
    · rcases available with ⟨other, inside, _, same⟩ | both
      · exact absurd same (unused.noRow other inside)
      · exact .inr ⟨new, noFile, both⟩
  refine ⟨agree.records, ?_, fun other owns => ?_, fun key owns => ?_⟩
  · refine firstAbsorbed.mine.trans (Eq.trans ?_ secondAbsorbed.mine.symm)
    rw [agree.owned, agree.find_eq available]
    rfl
  · by_cases here : other = exportJobId
    · subst here
      rw [Vault.absorb_queue_self, Vault.absorb_queue_self]
      rfl
    · rw [Vault.absorb_queue_of_ne here, Vault.absorb_queue_of_ne here]
      obtain ⟨row, member, mine, same⟩ := owns
      rcases origin row member mine with
        ⟨before, inside, owner, sameId, _⟩ | ⟨new, _, unused, unused'⟩
      · exact agree.queue other
          ⟨before, inside, owner, sameId.symm.trans same⟩
      · have newToo := same.symm.trans new
        rw [unused.noEntry _ newToo, unused'.noEntry _ newToo]
  · rw [Vault.absorb, Vault.absorb, firstStore]
    obtain ⟨row, member, mine, belongs⟩ := owns
    rcases origin row member mine with
      ⟨before, inside, owner, sameId, sameFile⟩ | ⟨new, noFile, unused, unused'⟩
    · rw [sameId, sameFile] at belongs
      exact agree.store key ⟨before, inside, owner, belongs⟩
    · rw [noFile, new] at belongs
      rcases belongs with file | under
      · cases file
      · exact (unused.noObject key under).trans
          (unused'.noObject key under).symm

/-- A command on an export of the user, or on a new one, answers the same on
both vaults, and they agree afterwards. -/
theorem Agree.command {request : Request} (agree : Agree userId first second)
    (server : Server) (call : Call)
    (available : Available userId first second (canonical exportJobId))
    (firstAdmitted : Admitted userId first exportJobId request)
    (secondAdmitted : Admitted userId second exportJobId request) :
    Agree userId (first.command server call exportJobId request).1
        (second.command server call exportJobId request).1 ∧
      (first.command server call exportJobId request).2 =
        (second.command server call exportJobId request).2 := by
  have firstAbsorbed := firstAdmitted.absorbed
    { server.env with exportJobId := exportJobId } call request.begin.callsLeft
  have secondAbsorbed := secondAdmitted.absorbed
    { server.env with exportJobId := exportJobId } call request.begin.callsLeft
  have same := runCommand_withStore
    { server.env with exportJobId := exportJobId } request.begin.callsLeft
    (agree.sameReads call.now request available)
  have store := runCommand_store { server.env with exportJobId := exportJobId }
    request.begin.callsLeft (first.world call.now exportJobId) request.begin
  rw [agree.world_eq call.now available, same] at secondAbsorbed
  simp only [Vault.command]
  rw [agree.world_eq call.now available, same]
  exact ⟨agree.absorb available firstAbsorbed secondAbsorbed store, rfl⟩

/-- The export a request names, if it names one. -/
def Operation.target : Operation → Option String
  | .create _ => none
  | .list => none
  | .stats => none
  | .detail exportJobId => some exportJobId
  | .resume exportJobId => some exportJobId
  | .cancel exportJobId => some exportJobId
  | .download exportJobId => some exportJobId
  | .verify exportJobId => some exportJobId

/-- The ownership check answers somebody else's export as an absent one. -/
theorem getOwnedExportJob_foreign
    (foreign : ¬ Owns userId vault (canonical exportJobId)) (now : Int)
    (next : ExportJob → ApiPc) :
    getOwnedExportJob (vault.world now exportJobId) userId next =
      .threw exportNotFound := by
  simp only [getOwnedExportJob, Vault.world]
  cases found : vault.find exportJobId with
  | none => rfl
  | some row =>
      obtain ⟨member, same⟩ := Vault.find_eq_some_iff.mp found
      exact if_pos fun mine => foreign ⟨row, member, mine, same⟩

/-- A command that begins with the ownership check ends there. -/
theorem command_foreign {request : Request} {next : ExportJob → ApiPc}
    {calls : Nat} (live : request.begin.ended = false)
    (begins : request.begin.callsLeft = calls + 1)
    (checks : ∀ env world, apiStep env world request.begin =
      (world, getOwnedExportJob world userId next))
    (foreign : ¬ Owns userId vault (canonical exportJobId)) :
    vault.command server call exportJobId request =
      (vault, .error exportNotFound) := by
  simp only [Vault.command, begins, runCommand, live, Bool.false_eq_true,
    if_false, checks, getOwnedExportJob_foreign foreign]
  rw [runCommand_ended rfl, absorb_world]
  rfl

/-- The answer to a request about an export of another is that to a request
about an absent one, and the request has no effect. -/
theorem serve_foreign (names : call.operation.target = some exportJobId)
    (uuid : isUuid exportJobId = true)
    (foreign : ¬ Owns userId vault (canonical exportJobId)) :
    vault.serve server userId call =
      (vault, errorHandler server call exportNotFound) := by
  have answered : ∀ {request : Request} {next : ExportJob → ApiPc}
      {calls statusCode : Nat}, request.begin.ended = false →
        request.begin.callsLeft = calls + 1 →
        (∀ env world, apiStep env world request.begin =
          (world, getOwnedExportJob world userId next)) →
        vault.serveCommand server call statusCode exportJobId request =
          (vault, errorHandler server call exportNotFound) := by
    intro request next calls statusCode live begins checks
    simp only [Vault.serveCommand,
      command_foreign live begins checks foreign]
  rw [Vault.serve]
  cases operation : call.operation with
  | create | list | stats =>
      rw [operation] at names
      cases names
  | detail other =>
      rw [operation] at names
      obtain rfl := Option.some.inj names
      simp only [uuid, if_true, Vault.detail]
      cases found : vault.find other with
      | none => rfl
      | some row =>
          obtain ⟨member, same⟩ := Vault.find_eq_some_iff.mp found
          have other : row.job.userId ≠ userId :=
            fun mine => foreign ⟨row, member, mine, same⟩
          simp only [if_pos other]
  | resume other | cancel other | download other | verify other =>
      rw [operation] at names
      obtain rfl := Option.some.inj names
      simp only [uuid, if_true]
      exact answered rfl rfl fun _ _ => rfl

/-- Two runs may draw the id generated for the request. -/
def FreshCall (userId : String) (first second : Vault) (call : Call) : Prop :=
  ∀ rowLimit, call.operation = .create rowLimit →
    Available userId first second (canonical call.newId)

theorem Available.swap {id : String} (agree : Agree userId first second)
    (available : Available userId first second id) :
    Available userId second first id := by
  rcases available with owns | ⟨firstUnused, secondUnused⟩
  · exact .inl (agree.owns_iff.mp owns)
  · exact .inr ⟨secondUnused, firstUnused⟩

/-- An available id stays available. -/
theorem Available.kept {firstAfter secondAfter : Vault} {id : String}
    (available : Available userId first second id)
    (agree : Agree userId firstAfter secondAfter)
    (firstKept : Kept userId first firstAfter)
    (secondKept : Kept userId second secondAfter) :
    Available userId firstAfter secondAfter id := by
  rcases available with owns | ⟨firstUnused, secondUnused⟩
  · exact .inl (firstKept.owns owns)
  · rcases firstKept.unused firstUnused with firstStill | owns
    · rcases secondKept.unused secondUnused with secondStill | owns
      · exact .inr ⟨firstStill, secondStill⟩
      · exact .inl (agree.owns_iff.mpr owns)
    · exact .inl owns

/-- The requests of the user are admitted on the exports of the user. -/
theorem admitted_of_owns {request : Request}
    (creator : request.begin.creator = none)
    (owns : Owns userId vault (canonical exportJobId)) :
    Admitted userId vault exportJobId request := by
  refine ⟨fun user creates => ?_, .inl owns⟩
  rw [creator] at creates
  cases creates

/-- A request for a new export is admitted. -/
theorem admitted_create (rowLimit : Int) {other : Vault}
    (available : Available userId vault other (canonical exportJobId)) :
    Admitted userId vault exportJobId (.create userId rowLimit) := by
  have begins : (∃ error, (Request.create userId rowLimit).begin =
      .threw error) ∨
      (Request.create userId rowLimit).begin =
        .captureSnapshot userId rowLimit := by
    simp only [Request.begin]
    split
    · exact .inl ⟨_, rfl⟩
    · split
      · exact .inl ⟨_, rfl⟩
      · exact .inr rfl
  refine ⟨fun user creates => ?_, available.imp id fun unused =>
    ⟨unused.1, ?_⟩⟩
  · rcases begins with ⟨error, threw⟩ | captures
    · rw [threw] at creates
      cases creates
    · rw [captures] at creates
      exact (Option.some.inj creates).symm
  · rcases begins with ⟨error, threw⟩ | captures
    · rw [threw]
      exact .inr rfl
    · rw [captures]
      exact .inl rfl

/-- The answer of a controller is the same when that of its command is. -/
theorem replyResponse_congr {statusCode : Nat}
    (same : second.find exportJobId = first.find exportJobId)
    (reply : ApiReply) :
    replyResponse server first call statusCode exportJobId reply =
      replyResponse server second call statusCode exportJobId reply := by
  cases reply with
  | job job => simp only [replyResponse, exportReply, same]
  | verification | download => rfl

theorem Agree.serveCommand {request : Request} {statusCode : Nat}
    (agree : Agree userId first second)
    (available : Available userId first second (canonical exportJobId))
    (firstAdmitted : Admitted userId first exportJobId request)
    (secondAdmitted : Admitted userId second exportJobId request) :
    Agree userId
        (first.serveCommand server call statusCode exportJobId request).1
        (second.serveCommand server call statusCode exportJobId request).1 ∧
      (first.serveCommand server call statusCode exportJobId request).2 =
        (second.serveCommand server call statusCode exportJobId request).2 := by
  obtain ⟨agreeAfter, sameAnswer⟩ := agree.command server call available
    firstAdmitted secondAdmitted
  have still := available.kept agreeAfter firstAdmitted.kept
    secondAdmitted.kept
  refine ⟨agreeAfter, ?_⟩
  simp only [Vault.serveCommand, sameAnswer]
  cases (second.command server call exportJobId request).2 with
  | error => rfl
  | ok reply => exact replyResponse_congr (agreeAfter.find_eq still) reply

theorem Agree.detail (agree : Agree userId first second)
    (owns : Owns userId first (canonical exportJobId)) :
    first.detail server call userId exportJobId =
      second.detail server call userId exportJobId := by
  rw [Vault.detail, Vault.detail, agree.find_eq (.inl owns)]

theorem serve_invalid (names : call.operation.target = some exportJobId)
    (malformed : ¬ isUuid exportJobId = true) :
    vault.serve server userId call =
      (vault, errorHandler server call invalidParams) := by
  rw [Vault.serve]
  cases operation : call.operation with
  | create | list | stats =>
      rw [operation] at names
      cases names
  | detail other | resume other | cancel other | download other
  | verify other =>
      rw [operation] at names
      obtain rfl := Option.some.inj names
      exact if_neg malformed

/-- A request about an export is answered with its details, or runs a command
on it. -/
theorem serve_target (server : Server) (userId : String)
    (names : call.operation.target = some exportJobId)
    (uuid : isUuid exportJobId = true) :
    (∀ vault : Vault, vault.serve server userId call =
      (vault, vault.detail server call userId exportJobId)) ∨
    ∃ request : Request, request.begin.creator = none ∧
      ∀ vault : Vault, vault.serve server userId call =
        vault.serveCommand server call 200 exportJobId request := by
  cases operation : call.operation with
  | create | list | stats =>
      rw [operation] at names
      cases names
  | detail other =>
      rw [operation] at names
      obtain rfl := Option.some.inj names
      refine .inl fun vault => ?_
      simp only [Vault.serve, operation, uuid, if_true]
  | resume other =>
      rw [operation] at names
      obtain rfl := Option.some.inj names
      refine .inr ⟨.resume userId, rfl, fun vault => ?_⟩
      simp only [Vault.serve, operation, uuid, if_true]
  | cancel other =>
      rw [operation] at names
      obtain rfl := Option.some.inj names
      refine .inr ⟨.cancel userId, rfl, fun vault => ?_⟩
      simp only [Vault.serve, operation, uuid, if_true]
  | download other =>
      rw [operation] at names
      obtain rfl := Option.some.inj names
      refine .inr ⟨.download userId, rfl, fun vault => ?_⟩
      simp only [Vault.serve, operation, uuid, if_true]
  | verify other =>
      rw [operation] at names
      obtain rfl := Option.some.inj names
      refine .inr ⟨.verify userId, rfl, fun vault => ?_⟩
      simp only [Vault.serve, operation, uuid, if_true]

/-- A request for a new export is refused, or runs a command on it. -/
theorem serve_create (server : Server) (userId : String) {rowLimit : Option Int}
    (creates : call.operation = .create rowLimit) :
    (∀ vault : Vault, vault.serve server userId call =
      (vault, errorHandler server call
        (invalidBody (rowLimit.getD maxRowLimit)))) ∨
    ∃ limit, ∀ vault : Vault, vault.serve server userId call =
      vault.serveCommand server call 201 call.newId (.create userId limit) := by
  by_cases refused :
      rowLimit.getD maxRowLimit ≤ 0 ∨ maxRowLimit < rowLimit.getD maxRowLimit
  · refine .inl fun vault => ?_
    simp only [Vault.serve, creates, if_pos refused]
  · refine .inr ⟨rowLimit.getD maxRowLimit, fun vault => ?_⟩
    simp only [Vault.serve, creates, if_neg refused]

/-- One request of the user on two vaults that agree. -/
structure Alike (userId : String) (first second : Vault)
    (firstResult secondResult : Vault × Response) : Prop where
  agree : Agree userId firstResult.1 secondResult.1
  response : firstResult.2 = secondResult.2
  first : Kept userId first firstResult.1
  second : Kept userId second secondResult.1

theorem Agree.serve (agree : Agree userId first second) (server : Server)
    (fresh : FreshCall userId first second call) :
    Alike userId first second (first.serve server userId call)
      (second.serve server userId call) := by
  have still : ∀ response, Alike userId first second (first, response)
      (second, response) :=
    fun _ => ⟨agree, rfl, .refl .., .refl ..⟩
  have target : ∀ exportJobId, call.operation.target = some exportJobId →
      Alike userId first second (first.serve server userId call)
        (second.serve server userId call) := by
    intro exportJobId names
    by_cases uuid : isUuid exportJobId = true
    · by_cases owns : Owns userId first (canonical exportJobId)
      · have ownsToo := agree.owns_iff.mp owns
        rcases serve_target server userId names uuid with
          detail | ⟨request, creator, command⟩
        · rw [detail, detail, agree.detail owns]
          exact still _
        · rw [command, command]
          have firstAdmitted := admitted_of_owns creator owns
          have secondAdmitted := admitted_of_owns creator ownsToo
          obtain ⟨agreeAfter, same⟩ := agree.serveCommand (.inl owns)
            firstAdmitted secondAdmitted
          exact ⟨agreeAfter, same, firstAdmitted.kept, secondAdmitted.kept⟩
      · rw [serve_foreign names uuid owns, serve_foreign names uuid
          fun ownsToo => owns (agree.owns_iff.mpr ownsToo)]
        exact still _
    · rw [serve_invalid names uuid, serve_invalid names uuid]
      exact still _
  cases operation : call.operation with
  | create rowLimit =>
      rcases serve_create server userId operation with
        refused | ⟨limit, command⟩
      · rw [refused, refused]
        exact still _
      · rw [command, command]
        have available := fresh rowLimit operation
        have firstAdmitted := admitted_create limit available
        have secondAdmitted := admitted_create limit (available.swap agree)
        obtain ⟨agreeAfter, same⟩ := agree.serveCommand available
          firstAdmitted secondAdmitted
        exact ⟨agreeAfter, same, firstAdmitted.kept, secondAdmitted.kept⟩
  | list =>
      simp only [Vault.serve, operation, Vault.list, agree.owned]
      exact still _
  | stats =>
      simp only [Vault.serve, operation, Vault.stats, agree.owned]
      exact still _
  | detail exportJobId | resume exportJobId | cancel exportJobId
  | download exportJobId | verify exportJobId =>
      exact target exportJobId (by rw [operation]; rfl)

theorem Agree.serveAll {calls : List Call}
    (agree : Agree userId first second) (server : Server)
    (fresh : ∀ call ∈ calls, FreshCall userId first second call) :
    Agree userId (first.serveAll server userId calls).1
        (second.serveAll server userId calls).1 ∧
      (first.serveAll server userId calls).2 =
        (second.serveAll server userId calls).2 ∧
      Kept userId first (first.serveAll server userId calls).1 ∧
      Kept userId second (second.serveAll server userId calls).1 := by
  induction calls generalizing first second with
  | nil => exact ⟨agree, rfl, .refl .., .refl ..⟩
  | cons call calls inductionHypothesis =>
      have alike := agree.serve server
        (fresh call (List.mem_cons_self ..))
      have later : ∀ other ∈ calls, FreshCall userId
          (first.serve server userId call).1
          (second.serve server userId call).1 other :=
        fun other member rowLimit creates =>
          (fresh other (List.mem_cons_of_mem _ member) rowLimit creates).kept
            alike.agree alike.first alike.second
      obtain ⟨agreeAfter, responses, firstKept, secondKept⟩ :=
        inductionHypothesis alike.agree later
      refine ⟨agreeAfter, ?_, alike.first.trans firstKept,
        alike.second.trans secondKept⟩
      simp only [Vault.serveAll, alike.response, responses]

/-- Users cannot observe or affect each other's exports. -/
theorem users_isolated (server : Server) {calls : List Call}
    (agree : Agree userId first second)
    (fresh : ∀ call ∈ calls, ∀ rowLimit, call.operation = .create rowLimit →
      Unused first (canonical call.newId) ∧
        Unused second (canonical call.newId)) :
    (first.serveAll server userId calls).2 =
        (second.serveAll server userId calls).2 ∧
      Agree userId (first.serveAll server userId calls).1
        (second.serveAll server userId calls).1 ∧
      OthersUntouched userId first (first.serveAll server userId calls).1 ∧
      OthersUntouched userId second (second.serveAll server userId calls).1 ∧
      ∀ (vault : Vault) (call : Call) (exportJobId : String),
        call.operation.target = some exportJobId →
        isUuid exportJobId = true →
        ¬ Owns userId vault (canonical exportJobId) →
        vault.serve server userId call =
          (vault, errorHandler server call exportNotFound) := by
  obtain ⟨agreeAfter, responses, firstKept, secondKept⟩ := agree.serveAll server
    fun call member rowLimit creates =>
      .inr (fresh call member rowLimit creates)
  exact ⟨responses, agreeAfter, firstKept.others, secondKept.others,
    fun _ _ _ names uuid foreign => serve_foreign names uuid foreign⟩

def eveId : String := "0e5f3c1a-6d2b-4f7e-9a8c-1b3d5f7a9c2e"

def adaId : String := "7a1c9e3f-2b4d-4c6e-8f0a-5d7b9c1e3f2a"

def evesExport : Export where
  id := eveId
  createdAt := 1
  job :=
    { userId := "eve", status := .running, snapshotMaxId := 4,
      requestedRowLimit := 3, batchSize := 1, updatedAt := 1 }

def adasExport : Export where
  id := adaId
  createdAt := 2
  job :=
    { userId := "ada", status := .interrupted, snapshotMaxId := 4,
      requestedRowLimit := 3, batchSize := 1, updatedAt := 2 }

def evesChunk : String :=
  "exports/" ++ eveId ++ "/chunks/batch-000001.csv"

def vaultWithEve : Vault where
  records := threeRecords
  exports := [evesExport, adasExport]
  distinct := by decide
  queue := fun exportJobId => if exportJobId = eveId then some {} else none
  store := ⟨[(evesChunk, utf8 "1")]⟩

def vaultWithoutEve : Vault where
  records := threeRecords
  exports := [adasExport]
  distinct := by decide
  queue := fun _ => none
  store := ⟨[]⟩

def smallServer : Server where
  env := smallEnv
  isProduction := true
  percentage exported requested := exported * 100 / requested

/-- The id generated for the export that Ada's calls create. -/
def newId : String := "c0a1b2d3-e4f5-4a6b-8c7d-9e0f1a2b3c4d"

def adasCalls : List Call :=
  [⟨.list, 3, "r1", adaId⟩, ⟨.cancel eveId, 4, "r2", adaId⟩,
    ⟨.resume adaId, 5, "r3", adaId⟩,
    ⟨.create (some 2), 6, "r4", newId⟩]

theorem adas_agree : Agree "ada" vaultWithEve vaultWithoutEve := by
  refine ⟨rfl, by decide, fun exportJobId owns => ?_, fun key owns => ?_⟩
  · obtain ⟨row, member, mine, same⟩ := owns
    refine if_neg fun eves => ?_
    subst eves
    have all : ∀ row ∈ vaultWithEve.exports, row.job.userId = "ada" →
        row.id ≠ canonical eveId := by decide
    exact all row member mine same
  · obtain ⟨row, member, mine, belongs⟩ := owns
    have all : ∀ row ∈ vaultWithEve.exports, row.job.userId = "ada" →
        ¬ (row.job.fileKey = some evesChunk ∨
          hasPrefix ("exports/" ++ row.id ++ "/") evesChunk = true) := by
      decide
    have other : key ≠ evesChunk := by
      rintro rfl
      exact all row member mine belongs
    simp [ObjectStore.get?, vaultWithEve, vaultWithoutEve, other]

theorem unused_vaultWithEve : Unused vaultWithEve (canonical newId) := by
  refine ⟨by decide, fun exportJobId same => if_neg fun eves => ?_,
    fun key under => ?_⟩
  · rw [eves] at same
    revert same
    decide
  · have other : key ≠ evesChunk := by
      rintro rfl
      revert under
      decide
    simp [ObjectStore.get?, vaultWithEve, other]

theorem unused_vaultWithoutEve : Unused vaultWithoutEve (canonical newId) :=
  ⟨by decide, fun _ _ => rfl, fun _ _ => rfl⟩

/-- Ada's four requests: the list, one about Eve's export, one about her own
and one for a new export. -/
theorem users_isolated_adaAndEve :
    (vaultWithEve.serveAll smallServer "ada" adasCalls).2 =
        (vaultWithoutEve.serveAll smallServer "ada" adasCalls).2 ∧
      OthersUntouched "ada" vaultWithEve
        (vaultWithEve.serveAll smallServer "ada" adasCalls).1 := by
  have fresh : ∀ call ∈ adasCalls, ∀ rowLimit,
      call.operation = .create rowLimit →
        Unused vaultWithEve (canonical call.newId) ∧
          Unused vaultWithoutEve (canonical call.newId) := by
    intro call member rowLimit creates
    simp only [adasCalls, List.mem_cons, List.not_mem_nil, or_false] at member
    rcases member with rfl | rfl | rfl | rfl
    · cases creates
    · cases creates
    · cases creates
    · exact ⟨unused_vaultWithEve, unused_vaultWithoutEve⟩
  have isolated := users_isolated smallServer adas_agree fresh
  exact ⟨isolated.1, isolated.2.2.1⟩

end ExportVault
