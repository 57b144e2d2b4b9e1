import CryptoLakehouse.LakehouseCatalog
import Mathlib.Data.List.DropRight

/-! The upload to S3 at the end of `export_table` (`lakehouse/s3_uploader.py`, `lakehouse/export.py`), and the
same export without `S3_BUCKET`. The files are those below `parquet_base/table`, whoever wrote them. -/

namespace CryptoLakehouse.S3Upload

open Catalog (File uploadedFiles)
open Export (Action Bookmark State)

variable {R : Type}

/-- The calls to S3 that raise, by the number of the file. -/
structure Failures where
  client : Nat → Bool
  uploadFile : Nat → Bool

/-- How a call of `upload_file_to_s3` ends. -/
inductive Upload where
  | noBucket
  | clientRaised
  | swallowed (bucket key : String)
  | uploaded (bucket key : String)

def Upload.raised : Upload → Bool
  | .clientRaised => true
  | _ => false

/-- `replace("\\", "/")` -/
def normSeparators (path : List Char) : List Char := path.map fun c => if c = '\\' then '/' else c

/-- `base_path` is stripped where the path has it. -/
def s3Key (localPath basePath : String) : String :=
  let normLocal := normSeparators localPath.toList
  let normBase := normSeparators (basePath.toList.rdropWhile (· = '/')) ++ ['/']
  String.ofList (if normBase <+: normLocal then normLocal.drop normBase.length else normLocal)

/-- The client is made in front of the `try`. -/
def uploadFileToS3 (s3Bucket : Option String) (clientRaises uploadRaises : Bool)
    (localPath basePath : String) : Upload :=
  match s3Bucket with
  | none => .noBucket
  | some bucket =>
      if bucket = "" then .noBucket
      else if clientRaises then .clientRaised
      else if uploadRaises then .swallowed bucket (s3Key localPath basePath)
      else .uploaded bucket (s3Key localPath basePath)

/-- `str` of a relative path -/
def pathString (path : List String) : String := "/".intercalate path

section Code

variable (s3Bucket : Option String) (parquetBase : List String) (table : String)
  (windowStart : R → Option Instant)

/-- The loop of `_upload_new_files`, up to the call that raises. -/
def uploadFiles (failures : Failures) : Nat → List (File R) → List Upload
  | _, [] => []
  | i, file :: files =>
      let upload := uploadFileToS3 s3Bucket (failures.client i) (failures.uploadFile i)
        (pathString (file.dir ++ [file.name])) (pathString parquetBase)
      upload :: if upload.raised then [] else uploadFiles failures (i + 1) files

def uploadNewFiles (failures : Failures) (tree : List (File R)) : List Upload :=
  uploadFiles s3Bucket parquetBase failures 0 (uploadedFiles parquetBase table tree)

/-- A step of `export_table` other than its last one, or the last one, with the files it finds. -/
inductive Event (R : Type) where
  | other (a : Action R)
  | upload (tree : List (File R)) (failures : Failures)

/-- `export_table` with its call of `_upload_new_files`. -/
def step (s : State R) : Event R → Option (State R)
  | .other a =>
      match s.pc, a with
      | .uploading, .upload | .uploading, .raise => none
      | _, _ => Export.step windowStart s a
  | .upload tree failures =>
      match s.pc with
      | .uploading =>
          if (uploadNewFiles s3Bucket parquetBase table failures tree).any Upload.raised then
            Export.step windowStart s .raise
          else Export.step windowStart s .upload
      | _ => none

/-- There is no bucket, or the client can be made for every file. -/
def ClientMade : State R → Event R → Prop
  | _, .other _ => True
  | s, .upload tree failures => s.pc = .uploading → s3Bucket.getD "" = "" ∨
      ∀ i < (uploadedFiles parquetBase table tree).length, failures.client i = false

/-- What `export_table` has returned, and the row of `export_state`. -/
def outcome (s : State R) : Option Bool × Option Bookmark := (s.returned, s.bookmark)

end Code

section Files

/-- The key of a file below the base path is the path from there. -/
theorem s3Key_append {basePath : String} (h : basePath.toList.getLast? ≠ some '/') (rest : String) :
    s3Key (basePath ++ "/" ++ rest) basePath = String.ofList (normSeparators rest.toList) := by
  have hbase : basePath.toList.rdropWhile (· = '/') = basePath.toList := by
    rw [List.rdropWhile_eq_self_iff]
    intro hne hlast
    rw [decide_eq_true_eq] at hlast
    exact h (by rw [List.getLast?_eq_some_getLast hne, hlast])
  have hlocal : normSeparators (basePath ++ "/" ++ rest).toList =
      (normSeparators basePath.toList ++ ['/']) ++ normSeparators rest.toList := by
    simp [normSeparators]
  rw [s3Key, hbase, hlocal, if_pos (List.prefix_append _ _), List.drop_left]

example : s3Key "data/gold/gold_vwap_1min/day=23/part-abc.parquet" "data/gold" =
    "gold_vwap_1min/day=23/part-abc.parquet" := by decide +kernel

variable {s3Bucket : Option String} {parquetBase : List String} {table : String} {failures : Failures}

theorem raised_uploadFileToS3 {clientRaises uploadRaises : Bool} {localPath basePath : String} :
    (uploadFileToS3 s3Bucket clientRaises uploadRaises localPath basePath).raised = true ↔
      s3Bucket.getD "" ≠ "" ∧ clientRaises = true := by
  unfold uploadFileToS3
  cases s3Bucket with
  | none => simp [Upload.raised]
  | some bucket =>
      simp only [Option.getD_some]
      split_ifs with hbucket hclient hupload <;> simp_all [Upload.raised]

/-- An upload raises when a client cannot be made for one of its files. -/
theorem any_raised_uploadFiles {i : Nat} {files : List (File R)} :
    (uploadFiles s3Bucket parquetBase failures i files).any Upload.raised = true ↔
      s3Bucket.getD "" ≠ "" ∧ ∃ j < files.length, failures.client (i + j) = true := by
  induction files generalizing i with
  | nil => simp [uploadFiles]
  | cons file files ih =>
      have hfirst := @raised_uploadFileToS3 s3Bucket (failures.client i) (failures.uploadFile i)
        (pathString (file.dir ++ [file.name])) (pathString parquetBase)
      rw [uploadFiles]
      simp only [List.any_cons, Bool.or_eq_true]
      split_ifs with hraised
      · -- the loop ends here
        obtain ⟨hbucket, hclient⟩ := hfirst.mp hraised
        exact iff_of_true (Or.inl hraised) ⟨hbucket, 0, Nat.succ_pos _, hclient⟩
      · rw [or_iff_right hraised, ih]
        refine and_congr_right fun hbucket => ?_
        have hclient : failures.client i ≠ true := fun h => hraised (hfirst.mpr ⟨hbucket, h⟩)
        constructor
        · rintro ⟨j, hj, h⟩
          exact ⟨j + 1, Nat.succ_lt_succ hj, by rwa [Nat.add_comm j 1, ← Nat.add_assoc]⟩
        · rintro ⟨j, hj, h⟩
          cases j with
          | zero => exact absurd h hclient
          | succ j => exact ⟨j, Nat.lt_of_succ_lt_succ hj, by rwa [Nat.add_assoc, Nat.add_comm 1 j]⟩

theorem not_any_raised_iff {tree : List (File R)} :
    (uploadNewFiles s3Bucket parquetBase table failures tree).any Upload.raised ≠ true ↔
      s3Bucket.getD "" = "" ∨
        ∀ i < (uploadedFiles parquetBase table tree).length, failures.client i = false := by
  rw [uploadNewFiles, ne_eq, any_raised_uploadFiles, not_and_or, not_not]
  refine or_congr_right ?_
  push Not
  exact forall₂_congr fun i _ => by rw [Nat.zero_add, ne_eq, Bool.not_eq_true]

theorem not_any_raised_unset (tree : List (File R)) :
    (uploadNewFiles none parquetBase table failures tree).any Upload.raised ≠ true :=
  not_any_raised_iff.mpr (Or.inl rfl)

end Files

section Steps

variable {s3Bucket : Option String} {parquetBase : List String} {table : String}
  {windowStart : R → Option Instant} {s t : State R} {e : Event R}

/-- What a step is: one of the export's own, or the upload behind the bookmark. -/
theorem step_cases (h : step s3Bucket parquetBase table windowStart s e = some t) :
    (∃ a, e = .other a ∧ (s.pc = .uploading → a ≠ .upload ∧ a ≠ .raise) ∧
        Export.step windowStart s a = some t) ∨
      ∃ tree failures, e = .upload tree failures ∧ s.pc = .uploading ∧ Export.step windowStart s
        (if (uploadNewFiles s3Bucket parquetBase table failures tree).any Upload.raised then .raise
          else .upload) = some t := by
  cases e with
  | other a =>
      simp only [step] at h
      split at h
      · cases h
      · cases h
      · rename_i hupload hraise
        exact Or.inl ⟨_, rfl, fun hpc => ⟨hupload hpc, hraise hpc⟩, h⟩
  | upload tree failures =>
      simp only [step] at h
      split at h
      · rename_i hpc
        refine Or.inr ⟨tree, failures, rfl, hpc, ?_⟩
        rwa [apply_ite (Export.step windowStart s)]
      · cases h

theorem step_eq_unset (h : ClientMade s3Bucket parquetBase table s e) :
    step s3Bucket parquetBase table windowStart s e = step none parquetBase table windowStart s e := by
  cases e with
  | other a => rfl
  | upload tree failures =>
      cases hpc : s.pc with
      | uploading =>
          simp only [step, hpc]
          rw [if_neg (not_any_raised_iff.mpr (h hpc)), if_neg (not_any_raised_unset tree)]
      | _ => simp only [step, hpc]

/-- The step at which a client cannot be made returns the other value. -/
theorem clientMade_of_outcome_eq
    (h : (step s3Bucket parquetBase table windowStart s e).map outcome =
      (step none parquetBase table windowStart s e).map outcome) :
    ClientMade s3Bucket parquetBase table s e := by
  cases e with
  | other a => trivial
  | upload tree failures =>
      intro hpc
      apply not_any_raised_iff.mp
      intro hraised
      simp only [step, hpc] at h
      rw [if_pos hraised, if_neg (not_any_raised_unset tree)] at h
      simp [Export.step, hpc, outcome] at h

/-- Behind the bookmark there is only the upload left to fail. -/
theorem not_failed_of_clientMade (hpc : s.pc = .uploading) (hmade : ClientMade s3Bucket parquetBase table s e)
    (h : step s3Bucket parquetBase table windowStart s e = some t) :
    ¬ (t.pc = .idle ∧ t.returned = some false) := by
  rcases step_cases h with ⟨a, -, hother, ha⟩ | ⟨tree, failures, rfl, -, ha⟩
  · cases Export.transition_of_step windowStart ha with
    | refresh gold =>
        rintro ⟨hidle, -⟩
        cases hpc.symm.trans hidle
    | kill =>
        rintro ⟨-, hnone⟩
        cases hnone
    | upload => exact absurd rfl (hother hpc).1
    | raise => exact absurd rfl (hother hpc).2
    | beginFull hpc' | beginIncremental _ hpc' | unlink _ hpc' | rmtree hpc' | read _ hpc'
    | writePart _ _ _ _ hpc' | now _ hpc' | upsert _ _ hpc' => cases hpc.symm.trans hpc'
  · rw [if_neg (not_any_raised_iff.mpr (hmade hpc))] at ha
    cases Export.transition_of_step windowStart ha with
    | upload =>
        rintro ⟨-, hfalse⟩
        cases hfalse

/-- The exports of a run come out as they do without a bucket, and none of them fails behind its bookmark. -/
structure Unaffected (s3Bucket : Option String) (parquetBase : List String) (table : String)
    (windowStart : R → Option Instant) (s : State R) (es : List (Event R)) : Prop where
  outcome : ∀ done, done <+: es →
    (Runs.run (step s3Bucket parquetBase table windowStart) s done).map outcome =
      (Runs.run (step none parquetBase table windowStart) s done).map outcome
  committed : ∀ done e, done ++ [e] <+: es → ∀ u t,
    Runs.run (step s3Bucket parquetBase table windowStart) s done = some u → u.pc = .uploading →
    step s3Bucket parquetBase table windowStart u e = some t → ¬ (t.pc = .idle ∧ t.returned = some false)

variable (s3Bucket parquetBase table windowStart s) in
/-- **S3 makes no difference to a run of exports exactly when the client can be made for every file.** -/
theorem unaffected_iff (es : List (Event R)) :
    Unaffected s3Bucket parquetBase table windowStart s es ↔
      Runs.Meets (step s3Bucket parquetBase table windowStart) (ClientMade s3Bucket parquetBase table) s es := by
  have hagree := @Runs.agree_iff_meets _ _ (step s3Bucket parquetBase table windowStart)
    (ClientMade s3Bucket parquetBase table) _ (step none parquetBase table windowStart) outcome
    (fun s e => step_eq_unset) (fun s e => clientMade_of_outcome_eq) s es
  constructor
  · exact fun h => hagree.mp h.outcome
  · intro hmeets
    refine ⟨hagree.mpr hmeets, ?_⟩
    rintro done e ⟨rest, rfl⟩ u t hu hpc ht
    have hprefix := ((Runs.meets_append (Runs.run_snoc.mpr ⟨u, hu, ht⟩)).mp hmeets).1
    exact not_failed_of_clientMade hpc ((Runs.meets_snoc hu).mp hprefix).2 ht

/-- Credentials are missing: the export has moved its bookmark and returns False. -/
theorem clientError_fails_export :
    ¬ ∀ (s3Bucket : Option String) (parquetBase : List String) (table : String) (s : State Instant)
      (es : List (Event Instant)), Unaffected s3Bucket parquetBase table some s es := by
  intro h
  have hrun := (h (some "backup") ["data"] "gold_vwap_1min" Export.init
    [.other .begin, .other .rmtree, .other .read, .other (.now 0), .other (.upsert true),
      .upload [⟨["data", "gold_vwap_1min"], "part-1.parquet", []⟩] ⟨fun _ => true, fun _ => false⟩]).outcome
    _ List.prefix_rfl
  exact absurd (congrArg (Option.map Prod.fst) hrun) (by decide +kernel)

end Steps

end CryptoLakehouse.S3Upload
