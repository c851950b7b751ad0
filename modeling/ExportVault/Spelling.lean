import ExportVault.Locality
import Mathlib

/-!
# Other spellings of an id

The database compares UUIDs by their value, the queue and the bucket compare
texts.  A cancel, a verification or a download that names an export by another
spelling of its id does what it does by the id itself (`apiCall_renamed`);
only the file name in the answer to a download is another.
-/

namespace ExportVault

open Interleaving

@[simp]
theorem canonical_canonical (exportJobId : String) :
    canonical (canonical exportJobId) = canonical exportJobId := by
  simp only [canonical, String.toList_ofList, List.map_map]
  congr 1
  apply List.map_congr_left
  intro letter _
  exact letter.toLower_toLower_eq_toLower

/-- No statement of the command from here on touches the queue or creates an
export. -/
def ApiPc.queueless : ApiPc → Bool
  | .findForCancel _ => true
  | .writeCancel _ => true
  | .findForVerifyOwner _ => true
  | .findForVerify => true
  | .latestForVerify _ => true
  | .verifyHead _ _ => true
  | .verifyRead _ _ _ => true
  | .saveVerification _ _ => true
  | .findForDownload _ => true
  | .latestForDownload _ => true
  | .returned _ => true
  | .threw _ => true
  | .crashed => true
  | _ => false

def Proc.queueless : Proc → Bool
  | .api pc => pc.queueless
  | _ => false

/-- The answer to a download that names the export by its id. -/
def ApiReply.renamed (env : Env) : ApiReply → ApiReply
  | .download _ _ expiresInSeconds fileBytes sha256 =>
      let filename := "export-" ++ env.exportJobId ++ ".csv"
      .download (env.signedUrl (finalKey env.exportJobId) filename) filename
        expiresInSeconds fileBytes sha256
  | reply => reply

def ApiPc.renamed (env : Env) : ApiPc → ApiPc
  | .returned reply => .returned (reply.renamed env)
  | pc => pc

def Proc.renamed (env : Env) : Proc → Proc
  | .api pc => .api (pc.renamed env)
  | proc => proc

section Renaming

variable {env : Env} {world : World} {pc : ApiPc} {id : String}

@[simp]
theorem ended_renamed : (pc.renamed env).ended = pc.ended := by
  cases pc <;> rfl

/-- A command that does not touch the queue goes on without it. -/
theorem queueless_apiStep (quiet : pc.queueless = true) :
    (apiStep env world pc).2.queueless = true := by
  have owned : ∀ {userId : String} {next : ExportJob → ApiPc},
      (∀ job, (next job).queueless = true) →
        (getOwnedExportJob world userId next).queueless = true := by
    intro userId next follows
    exact getOwnedExportJob_cases
      (motive := fun next => next.queueless = true) userId rfl
      fun job _ => follows job
  cases pc with
  | findForCancel =>
      refine owned fun job => ?_
      simp only [afterFindForCancel]
      repeat' split
      all_goals rfl
  | findForDownload =>
      refine owned fun job => ?_
      simp only [afterFindForDownload]
      repeat' split
      all_goals rfl
  | findForVerifyOwner => exact owned fun _ => rfl
  | writeCancel =>
      exact returnJob_cases (motive := fun next => next.queueless = true)
        (fun _ => rfl) fun _ _ => rfl
  | findForVerify | verifyHead | verifyRead | saveVerification =>
      simp only [apiStep]
      repeat' split
      all_goals rfl
  | latestForDownload =>
      simp only [apiStep, afterLatestForDownload]
      repeat' split
      all_goals rfl
  | latestForVerify | returned | threw | crashed => rfl
  | _ => cases quiet

theorem inserts_of_queueless (quiet : pc.queueless = true) :
    pc.inserts = false := by
  cases pc with
  | insertJob => cases quiet
  | _ => rfl

theorem entry_apiStep (quiet : pc.queueless = true) :
    (apiStep env world pc).1.entry = world.entry := by
  cases pc with
  | saveVerification =>
      simp only [apiStep]
      split <;> rfl
  | findForCancel | writeCancel | findForVerifyOwner | findForVerify
  | latestForVerify | verifyHead | verifyRead | findForDownload
  | latestForDownload | returned | threw | crashed => rfl
  | _ => cases quiet

/-- Only a download hands out the name it was called by. -/
theorem renamed_apiStep {other : Env} (quiet : pc.queueless = true)
    (unasked : ∀ fileKey, pc ≠ .latestForDownload fileKey)
    (unanswered : ∀ reply, pc ≠ .returned reply) :
    (apiStep env world pc).2.renamed other = (apiStep env world pc).2 := by
  have owned : ∀ {userId : String} {next : ExportJob → ApiPc},
      (∀ job, (next job).renamed other = next job) →
        (getOwnedExportJob world userId next).renamed other =
          getOwnedExportJob world userId next := by
    intro userId next follows
    exact getOwnedExportJob_cases
      (motive := fun next => next.renamed other = next) userId rfl
      fun job _ => follows job
  cases pc with
  | findForCancel =>
      refine owned fun job => ?_
      simp only [afterFindForCancel]
      repeat' split
      all_goals rfl
  | findForDownload =>
      refine owned fun job => ?_
      simp only [afterFindForDownload]
      repeat' split
      all_goals rfl
  | findForVerifyOwner => exact owned fun _ => rfl
  | writeCancel =>
      exact returnJob_cases (motive := fun next => next.renamed other = next)
        (fun _ => rfl) fun _ _ => rfl
  | findForVerify | verifyHead | verifyRead | saveVerification =>
      simp only [apiStep]
      repeat' split
      all_goals rfl
  | latestForDownload fileKey => exact absurd rfl (unasked fileKey)
  | returned reply => exact absurd rfl (unanswered reply)
  | latestForVerify | threw | crashed => rfl
  | _ => cases quiet

/-- A statement of a command under another spelling of the id. -/
theorem apiStep_renamed (entry : Option QueueEntry)
    (quiet : pc.queueless = true) (opened : pc.FileOf id) :
    apiStep (env.forExport id) (world.setEntry entry)
        (pc.renamed (env.forExport id)) =
      ((apiStep env world pc).1.setEntry entry,
        (apiStep env world pc).2.renamed (env.forExport id)) := by
  have silent := @renamed_apiStep env world pc (env.forExport id) quiet
  cases pc with
  | latestForDownload fileKey =>
      obtain rfl : fileKey = finalKey id := opened fileKey rfl
      have latest : (world.setEntry entry).latestVerification =
          world.latestVerification := rfl
      simp only [apiStep, latest]
      cases world.latestVerification with
      | none => rfl
      | some verification =>
          cases passed : verification.passed <;>
            simp [afterLatestForDownload, passed, ApiPc.renamed,
              ApiReply.renamed, Env.forExport]
  | returned => rfl
  | saveVerification job result =>
      simp only [apiStep, ApiPc.renamed]
      split <;> rfl
  | findForCancel | writeCancel | findForVerifyOwner | findForVerify
  | latestForVerify | verifyHead | verifyRead | findForDownload | threw
  | crashed =>
      refine Prod.ext rfl (Eq.trans ?_ (silent (by simp) (by simp)).symm)
      rfl
  | _ => cases quiet

/-- A call of such a command, under any fault. -/
theorem apiCall_renamed (entry : Option QueueEntry) (fault : Fault)
    (quiet : pc.queueless = true) (opened : pc.FileOf id) :
    apiCall (env.forExport id) (world.setEntry entry)
        (pc.renamed (env.forExport id)) fault =
      ((apiCall env world pc fault).1.setEntry entry,
        (apiCall env world pc fault).2.renamed (env.forExport id)) := by
  cases fault <;> simp only [apiCall, apiStep_renamed entry quiet opened] <;>
    rfl

variable {after : World} {index : Nat} {proc next : Proc} {action : Action}

theorem Proc.FileOf.renamed {other : Env} (opened : proc.FileOf id) :
    (proc.renamed other).FileOf id := by
  cases proc with
  | api pc =>
      cases pc with
      | returned reply => exact fun _ opens => by cases opens
      | _ => exact opened
  | _ => trivial

/-- What a command under another spelling of the id does, it does by the id
itself, whatever is in the queue. -/
theorem act_renamed (entry : Option QueueEntry)
    (quiet : proc.queueless = true) (opened : proc.FileOf id)
    (stepEq : act env index world proc action = some (after, next)) :
    act (env.forExport id) index (world.setEntry entry)
        (proc.renamed (env.forExport id)) action =
      some (after.setEntry entry, next.renamed (env.forExport id)) := by
  cases proc with
  | api pc =>
      cases action with
      | call fault =>
          simp only [act, Option.ite_none_left_eq_some, Bool.not_eq_true,
            Option.some.injEq, Prod.mk.injEq] at stepEq
          obtain ⟨live, rfl, rfl⟩ := stepEq
          simp only [Proc.renamed, act, ended_renamed, live,
            Bool.false_eq_true, if_false,
            apiCall_renamed entry fault quiet opened]
      | crash =>
          simp only [act, Option.ite_none_left_eq_some, Bool.not_eq_true,
            Option.some.injEq, Prod.mk.injEq] at stepEq
          obtain ⟨live, rfl, rfl⟩ := stepEq
          simp only [Proc.renamed, act, ended_renamed, live,
            Bool.false_eq_true, if_false]
          rfl
      | _ => cases stepEq
  | _ => cases quiet

theorem act_renamed_forExport {exportJobId : String}
    (entry : Option QueueEntry) (quiet : proc.queueless = true)
    (opened : proc.FileOf id)
    (stepEq : act (env.forExport exportJobId) index world proc action =
      some (after, next)) :
    act (env.forExport id) index (world.setEntry entry)
        (proc.renamed (env.forExport id)) action =
      some (after.setEntry entry, next.renamed (env.forExport id)) := by
  have renames := @act_renamed (env.forExport exportJobId) world id after
    index proc next action entry quiet opened stepEq
  exact renames

end Renaming

end ExportVault
