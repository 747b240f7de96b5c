import Cts.Frontcode.Served

/-!
# Only what a controller approved is served

Whatever batch creators upload, what is served is the batch with the hash that a controller
approved, without the files that a controller cleared since.
-/

namespace Cts.Frontcode

open Lib

/-! ## Approvals -/

/-- The hash of the last batch, and the names that were cleared since. -/
structure Approval where
  batch_hash : Hash
  cleared : List String

/-- What a call makes of the last approval. -/
def approve (a : Option Approval) : CtsCall → Option Approval
  | .controller_commit_batch batch_hash => some ⟨batch_hash, []⟩
  | .controller_clear_files => none
  | .controller_clear_file filename => a.map fun a => { a with cleared := filename :: a.cleared }
  | .batch _ | .controller_add_batch_creators _ | .controller_remove_batch_creators _ => a

def approved (ran : List CtsCall) : Option Approval := ran.foldl approve none

/-- The live files are what is left of a batch with the approved hash. -/
structure LeftOf (c : Certifier) (a : Approval) (batch files : Files) : Prop where
  hash : hash_of_files c batch = a.batch_hash
  lookup : ∀ name, files.lookup name = if name ∈ a.cleared then none else batch.lookup name
  whole : a.cleared = [] → files = batch

/-- Without an approval there are no files. -/
def HoldsApproved (c : Certifier) (a : Option Approval) (files : Files) : Prop :=
  match a with
  | none => files = ∅
  | some a => ∃ batch, LeftOf c a batch files

variable {c : Certifier} {caller : Principal} {caller_is_controller : Bool} {s s' : Canister}
  {a : Option Approval} {files batch : Files}

theorem LeftOf.clear {a : Approval} (h : LeftOf c a batch files) (filename : String) :
    LeftOf c { a with cleared := filename :: a.cleared } batch (files.erase filename) := by
  refine ⟨h.hash, fun name => ?_, fun hnil => absurd hnil (List.cons_ne_nil _ _)⟩
  by_cases hname : name = filename
  · rw [hname, AList.lookup_erase, if_pos List.mem_cons_self]
  · rw [AList.lookup_erase_ne hname, h.lookup name]
    simp [hname]

theorem HoldsApproved.clear (h : HoldsApproved c a files) (filename : String) :
    HoldsApproved c (a.map fun a => { a with cleared := filename :: a.cleared })
      (files.erase filename) := by
  cases a with
  | none =>
    unfold HoldsApproved at h ⊢
    simp only [Option.map_none]
    rw [h]
    rfl
  | some a =>
    obtain ⟨batch, hbatch⟩ := h
    exact ⟨batch, hbatch.clear filename⟩

/-! ## What a call does -/

theorem others_keep {call : CtsCall} (h : s.call c caller false call = some s') : KeepsFiles s s' := by
  cases call with
  | batch call => exact batchCall_keeps h
  | controller_commit_batch => cases h
  | controller_clear_file => cases h
  | controller_clear_files => cases h
  | controller_add_batch_creators => cases h
  | controller_remove_batch_creators => cases h

theorem approved_call {call : CtsCall} (hs : HoldsApproved c a s.cts_data.frontcode_files)
    (h : s.call c caller caller_is_controller call = some s') :
    HoldsApproved c (approve a call) s'.cts_data.frontcode_files := by
  cases call with
  | batch call =>
    unfold approve
    rw [(batchCall_keeps h).files]
    exact hs
  | controller_commit_batch batch_hash =>
    simp only [Canister.call, controller_commit_batch] at h
    split_ifs at h with hc hhash
    obtain rfl := Option.some.inj h
    exact ⟨s.cts_data.current_batch, (not_not.mp hhash).symm, fun name => by simp, fun _ => rfl⟩
  | controller_clear_file filename =>
    simp only [Canister.call, controller_clear_file] at h
    split_ifs at h
    obtain rfl := Option.some.inj h
    exact hs.clear filename
  | controller_clear_files =>
    simp only [Canister.call, controller_clear_files] at h
    split_ifs at h
    obtain rfl := Option.some.inj h
    rfl
  | controller_add_batch_creators batch_creators =>
    simp only [Canister.call, controller_add_batch_creators] at h
    split_ifs at h
    obtain rfl := Option.some.inj h
    exact hs
  | controller_remove_batch_creators batch_creators =>
    simp only [Canister.call, controller_remove_batch_creators] at h
    split_ifs at h
    obtain rfl := Option.some.inj h
    exact hs

theorem holds_approved {s : CtsSystem} (r : CtsReachable c s) :
    HoldsApproved c (approved s.ran) s.canister.cts_data.frontcode_files := by
  refine r.invariant
    (I := fun s => HoldsApproved c (approved s.ran) s.canister.cts_data.frontcode_files) ?_ ?_
  · rintro s ⟨batch_creators, rfl⟩
    rfl
  · rintro s _ - hs ⟨h⟩
    unfold approved
    rw [List.foldl_append]
    exact approved_call hs h

/-! ## What is served -/

theorem LeftOf.serves {a : Approval} {d : CTSData} (h : LeftOf c a batch d.frontcode_files)
    {url : String} {headers : List Header} {content : List Byte} :
    Serves c d url headers content ↔ file_name_of url ∉ a.cleared ∧
      ∃ file, batch.lookup (file_name_of url) = some file ∧ file.headers = headers ∧
        file.content = content := by
  rw [serves_iff, h.lookup]
  split_ifs with hcleared
  · simp [hcleared]
  · simp [hcleared]

/-- The names and contents that are served are those of any files with the approved hash. -/
theorem LeftOf.serves_audited {a : Approval} {d : CTSData} (h : LeftOf c a batch d.frontcode_files)
    {audited : Files} (hhash : hash_of_files c audited = a.batch_hash) (ht : TellsApart c audited batch)
    (url : String) (content : List Byte) :
    (∃ headers, Serves c d url headers content) ↔
      file_name_of url ∉ a.cleared ∧ (file_name_of url, content) ∈ contents audited := by
  have hperm := perm_of_hash ht (hhash.trans h.hash.symm)
  rw [hperm.mem_iff, mem_contents]
  constructor
  · rintro ⟨headers, hserves⟩
    obtain ⟨hcleared, file, hfile, -, hcontent⟩ := h.serves.mp hserves
    exact ⟨hcleared, file, hfile, hcontent⟩
  · rintro ⟨hcleared, file, hfile, hcontent⟩
    exact ⟨file.headers, h.serves.mpr ⟨hcleared, file, hfile, rfl, hcontent⟩⟩

/-- What the last approval says of a canister. -/
structure ServesApproved (c : Certifier) (s : CtsSystem) : Prop where
  nothing : approved s.ran = none → ∀ url headers content,
    ¬ Serves c s.canister.cts_data url headers content
  batch : ∀ a, approved s.ran = some a → ∃ batch, hash_of_files c batch = a.batch_hash ∧
    ∀ audited, hash_of_files c audited = a.batch_hash → TellsApart c audited batch →
      ∀ url content, (∃ headers, Serves c s.canister.cts_data url headers content) ↔
        file_name_of url ∉ a.cleared ∧ (file_name_of url, content) ∈ contents audited
  live_hash : ∀ a, approved s.ran = some a → a.cleared = [] →
    ∀ hash ∈ view_live_files_hash c s.canister.cts_data, hash = a.batch_hash
  /-- The hash that the view tells of the current batch can be approved. -/
  current_hash : ∀ caller, ∀ hash ∈ view_current_batch_hash c s.canister.cts_data, ∃ canister,
    s.canister.call c caller true (.controller_commit_batch hash) = some canister ∧
      canister.cts_data.frontcode_files = s.canister.cts_data.current_batch
  others : ∀ caller call canister, s.canister.call c caller false call = some canister →
    KeepsFiles s.canister canister

/-- Whatever batch creators upload and whenever, the names and contents that are served are those that a
controller approved by their hash, and only controllers change them. -/
theorem only_approved_files_are_served {s : CtsSystem} (r : CtsReachable c s) : ServesApproved c s := by
  have hs := holds_approved r
  refine ⟨fun ha url headers content hserves => ?_, fun a ha => ?_,
    fun a ha hcleared hash hhash => ?_, fun caller hash hhash => ?_,
    fun caller call canister => others_keep⟩
  · rw [ha] at hs
    obtain ⟨file, hfile, -⟩ := serves_iff.mp hserves
    have hempty : s.canister.cts_data.frontcode_files = ∅ := hs
    rw [hempty] at hfile
    cases hfile
  · rw [ha] at hs
    obtain ⟨batch, hbatch⟩ := hs
    exact ⟨batch, hbatch.hash, fun audited hhash ht => hbatch.serves_audited hhash ht⟩
  · rw [ha] at hs
    obtain ⟨batch, hbatch⟩ := hs
    unfold view_live_files_hash at hhash
    split_ifs at hhash with hnone
    · cases hhash
    · rw [← Option.mem_some_iff.mp hhash, hbatch.whole hcleared, hbatch.hash]
  · obtain ⟨committed, hcommit⟩ := commit_of_hash c s.canister
    unfold view_current_batch_hash at hhash
    split_ifs at hhash with hnone
    · cases hhash
    · rw [← Option.mem_some_iff.mp hhash]
      exact ⟨committed, hcommit, (controller_commit_batch_spec hcommit).2⟩

/-! ## An approval -/

theorem files_can_be_approved (c : Certifier) (files : Files) : ∃ s, CtsReachable c s ∧
    s.canister.cts_data.frontcode_files = files ∧
    approved s.ran = some ⟨hash_of_files c files, []⟩ := by
  let creator : Principal := .of_byte 1
  have hstart : CtsReachable c ⟨init (some {creator}), []⟩ := .start ⟨_, rfl⟩
  obtain ⟨calls, hcalls⟩ :=
    every_batch_can_be_uploaded (s := init (some {creator})) (Finset.mem_singleton_self creator) files
  obtain ⟨ran, hran⟩ := batch_calls_reachable hstart hcalls
  obtain ⟨committed, hcommit⟩ := commit_of_hash c ((init (some {creator})).withBatch files)
  obtain ⟨-, hfiles⟩ := controller_commit_batch_spec hcommit
  have hcall : ((init (some {creator})).withBatch files).call c creator true
      (.controller_commit_batch (hash_of_files c files)) = some committed := hcommit
  refine ⟨_, hran.next (.call hcall), hfiles, ?_⟩
  unfold approved
  rw [List.foldl_append]
  rfl

theorem test_files_are_approved : ∃ s, CtsReachable testCertifier s ∧
    s.canister.cts_data.frontcode_files = testFiles [] ∧ ServesApproved testCertifier s ∧
    ∃ headers, Serves testCertifier s.canister.cts_data "hi?x" headers [0, 1, 2, 3, 4] := by
  obtain ⟨s, r, hfiles, happroved⟩ := files_can_be_approved testCertifier (testFiles [])
  have hserves := only_approved_files_are_served r
  obtain ⟨file, hfile⟩ : ∃ file, (testFiles []).lookup (file_name_of "hi?x") = some file :=
    Option.isSome_iff_exists.mp (by decide +kernel)
  have hcontent : ((testFiles []).lookup (file_name_of "hi?x")).map File.content =
      some [0, 1, 2, 3, 4] := by
    decide +kernel
  rw [hfile, Option.map_some] at hcontent
  rw [← hfiles] at hfile
  exact ⟨s, r, hfiles, hserves, file.headers,
    serves_iff.mpr ⟨file, hfile, rfl, Option.some.inj hcontent⟩⟩

end Cts.Frontcode
