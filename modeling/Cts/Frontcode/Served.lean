import Cts.Frontcode.BatchHash
import Cts.Lib.Runs

/-!
# Served files match their hashes

The live files, the tree of their hashes and the certified data change together, in the calls of a
controller.
-/

namespace Cts.Frontcode

open Lib

/-! ## Runs -/

/-- A call that can change the canister. -/
inductive CtsCall
  | batch (call : BatchCall)
  | controller_commit_batch (batch_hash : Hash)
  | controller_clear_file (filename : String)
  | controller_clear_files
  | controller_add_batch_creators (batch_creators : Finset Principal)
  | controller_remove_batch_creators (batch_creators : Finset Principal)

/-- The methods that change the live files. -/
def CtsCall.changesFiles : CtsCall → Bool
  | .controller_commit_batch _ | .controller_clear_file _ | .controller_clear_files => true
  | .batch _ | .controller_add_batch_creators _ | .controller_remove_batch_creators _ => false

def Canister.call (c : Certifier) (caller : Principal) (caller_is_controller : Bool) (s : Canister) :
    CtsCall → Option Canister
  | .batch call => s.batchCall caller call
  | .controller_commit_batch batch_hash =>
    Frontcode.controller_commit_batch c caller_is_controller batch_hash s
  | .controller_clear_file filename =>
    Frontcode.controller_clear_file c caller_is_controller filename s
  | .controller_clear_files => Frontcode.controller_clear_files c caller_is_controller s
  | .controller_add_batch_creators batch_creators =>
    Frontcode.controller_add_batch_creators caller_is_controller batch_creators s
  | .controller_remove_batch_creators batch_creators =>
    Frontcode.controller_remove_batch_creators caller_is_controller batch_creators s

/-- The canister and the calls that it has run. A call that traps does not count. -/
structure CtsSystem where
  canister : Canister
  ran : List CtsCall

def ctsInit (s : CtsSystem) : Prop := ∃ batch_creators, s = ⟨init batch_creators, []⟩

/-- Anyone calls anything. -/
inductive CtsStep (c : Certifier) : CtsSystem → CtsSystem → Prop
  | call {s : CtsSystem} {caller : Principal} {caller_is_controller : Bool} {call : CtsCall}
      {canister : Canister}
      (h : s.canister.call c caller caller_is_controller call = some canister) :
      CtsStep c s { canister := canister, ran := s.ran ++ [call] }

abbrev CtsReachable (c : Certifier) : CtsSystem → Prop := Reachable ctsInit (CtsStep c)

/-! ## What a call does to the live files -/

/-- The tree has the names of the live files, each with the hash of its file. -/
def HashesMatch (c : Certifier) (d : CTSData) : Prop :=
  ∀ name, d.frontcode_files_hashes.get name =
    (d.frontcode_files.lookup name).map (File.sha256_hash c)

/-- The live files, the tree and the certified data are the same. -/
structure KeepsFiles (s s' : Canister) : Prop where
  files : s'.cts_data.frontcode_files = s.cts_data.frontcode_files
  hashes : s'.cts_data.frontcode_files_hashes = s.cts_data.frontcode_files_hashes
  certified : s'.certified_data = s.certified_data

variable {c : Certifier} {caller : Principal} {caller_is_controller : Bool} {s s' : Canister}

theorem batchCall_keeps {call : BatchCall} (h : s.batchCall caller call = some s') :
    KeepsFiles s s' := by
  unfold Canister.batchCall at h
  cases call with
  | create_batch =>
    simp only [create_batch] at h
    split_ifs at h
    obtain rfl := Option.some.inj h
    exact ⟨rfl, rfl, rfl⟩
  | upload_file q =>
    simp only [upload_file] at h
    split_ifs at h
    obtain rfl := Option.some.inj h
    exact ⟨rfl, rfl, rfl⟩
  | upload_file_chunks file_path chunk_i chunk =>
    simp only [upload_file_chunks] at h
    split_ifs at h
    split at h
    · split_ifs at h
      obtain rfl := Option.some.inj h
      exact ⟨rfl, rfl, rfl⟩
    · cases h

theorem get_foldl_insert {entries : List (Sigma fun _ : String => File)} (h : entries.NodupKeys)
    (files_hashes : FilesHashes) (name : String) :
    (entries.foldl (fun t e => t.insert e.1 (e.2.sha256_hash c)) files_hashes).get name =
      ((entries.dlookup name).map (File.sha256_hash c)).or (files_hashes.get name) := by
  induction entries generalizing files_hashes with
  | nil => rfl
  | cons e entries ih =>
    obtain ⟨hnot, hnodup⟩ := List.nodupKeys_cons.mp h
    rw [List.foldl_cons, ih hnodup, FilesHashes.get_insert]
    by_cases hname : name = e.1
    · subst hname
      have hnone : entries.dlookup e.1 = none := List.dlookup_eq_none.mpr hnot
      rw [hnone, if_pos rfl, List.dlookup_cons_eq]
      rfl
    · rw [if_neg hname, List.dlookup_cons_ne _ _ hname]

theorem files_hashes_of_get (files : Files) (name : String) :
    (files_hashes_of c files).get name = (files.lookup name).map (File.sha256_hash c) := by
  unfold files_hashes_of
  rw [get_foldl_insert files.nodupKeys, FilesHashes.get_new, Option.or_none]
  rfl

/-- The certified data is that of the tree. -/
def Certified (c : Certifier) (s : Canister) : Prop :=
  s.certified_data = some (set_root_hash c s.cts_data)

theorem controller_commit_batch_matches {batch_hash : Hash}
    (h : controller_commit_batch c caller_is_controller batch_hash s = some s') :
    HashesMatch c s'.cts_data ∧ Certified c s' := by
  unfold controller_commit_batch at h
  split_ifs at h
  obtain rfl := Option.some.inj h
  exact ⟨files_hashes_of_get s.cts_data.current_batch, rfl⟩

theorem controller_clear_files_matches
    (h : controller_clear_files c caller_is_controller s = some s') :
    HashesMatch c s'.cts_data ∧ Certified c s' := by
  unfold controller_clear_files at h
  split_ifs at h
  obtain rfl := Option.some.inj h
  exact ⟨fun _ => rfl, rfl⟩

theorem controller_clear_file_matches {filename : String} (hs : HashesMatch c s.cts_data)
    (h : controller_clear_file c caller_is_controller filename s = some s') :
    HashesMatch c s'.cts_data ∧ Certified c s' := by
  unfold controller_clear_file at h
  split_ifs at h
  obtain rfl := Option.some.inj h
  refine ⟨fun name => ?_, rfl⟩
  change (s.cts_data.frontcode_files_hashes.delete filename).get name =
    ((s.cts_data.frontcode_files.erase filename).lookup name).map (File.sha256_hash c)
  rw [FilesHashes.get_delete]
  by_cases hname : name = filename
  · rw [if_pos hname, hname, AList.lookup_erase, Option.map_none]
  · rw [if_neg hname, AList.lookup_erase_ne hname]
    exact hs name

theorem call_files {call : CtsCall} (hs : HashesMatch c s.cts_data)
    (h : s.call c caller caller_is_controller call = some s') :
    (call.changesFiles = false ∧ KeepsFiles s s') ∨ HashesMatch c s'.cts_data ∧ Certified c s' := by
  cases call with
  | batch call => exact Or.inl ⟨rfl, batchCall_keeps h⟩
  | controller_commit_batch batch_hash => exact Or.inr (controller_commit_batch_matches h)
  | controller_clear_file filename => exact Or.inr (controller_clear_file_matches hs h)
  | controller_clear_files => exact Or.inr (controller_clear_files_matches h)
  | controller_add_batch_creators batch_creators =>
    simp only [Canister.call, controller_add_batch_creators] at h
    split_ifs at h
    obtain rfl := Option.some.inj h
    exact Or.inl ⟨rfl, rfl, rfl, rfl⟩
  | controller_remove_batch_creators batch_creators =>
    simp only [Canister.call, controller_remove_batch_creators] at h
    split_ifs at h
    obtain rfl := Option.some.inj h
    exact Or.inl ⟨rfl, rfl, rfl, rfl⟩

/-! ## Every run -/

structure FilesCertified (c : Certifier) (s : CtsSystem) : Prop where
  hashes : HashesMatch c s.canister.cts_data
  certified : (∃ call ∈ s.ran, call.changesFiles = true) → Certified c s.canister

theorem files_certified_step {s s' : CtsSystem} (hs : FilesCertified c s) (h : CtsStep c s s') :
    FilesCertified c s' := by
  cases h with
  | @call caller caller_is_controller call canister h =>
    rcases call_files hs.hashes h with ⟨hcall, hkeeps⟩ | ⟨hmatch, hcertified⟩
    · constructor
      · intro name
        rw [hkeeps.hashes, hkeeps.files]
        exact hs.hashes name
      · rintro ⟨call', hran, hchanges⟩
        have hmem : call' ∈ s.ran := by
          rcases List.mem_append.mp hran with hmem | hlast
          · exact hmem
          · rw [List.mem_singleton.mp hlast, hcall] at hchanges
            cases hchanges
        have hcertified : s.canister.certified_data = some (set_root_hash c s.canister.cts_data) :=
          hs.certified ⟨call', hmem, hchanges⟩
        unfold Certified set_root_hash
        rw [hkeeps.certified, hkeeps.hashes]
        exact hcertified
    · exact ⟨hmatch, fun _ => hcertified⟩

theorem files_certified {s : CtsSystem} (r : CtsReachable c s) : FilesCertified c s := by
  refine r.invariant (I := FilesCertified c) ?_ fun _ _ _ h hstep => files_certified_step h hstep
  rintro s ⟨batch_creators, rfl⟩
  refine ⟨fun _ => rfl, ?_⟩
  rintro ⟨call, hran, -⟩
  cases hran

/-- The tree has the hashes of the live files, the certified data is that of the tree, and whoever
asks for a file and follows the tokens gets the content that has its hash. -/
structure FilesServed (c : Certifier) (s : CtsSystem) : Prop where
  hashes : ∀ name, s.canister.cts_data.frontcode_files_hashes.get name =
    (s.canister.cts_data.frontcode_files.lookup name).map fun file => c.sha256 file.content
  certified : (∃ call ∈ s.ran, call.changesFiles = true) →
    s.canister.certified_data = some (c.labeled_hash LABEL_ASSETS
      (c.root_hash s.canister.cts_data.frontcode_files_hashes))
  served : ∀ name file, s.canister.cts_data.frontcode_files.lookup name = some file →
    ∀ url, file_name_of url = name → ∃ response bodies,
      http_request c s.canister.cts_data url = some response ∧ response.status_code = 200 ∧
      Streams s.canister.cts_data response.streaming_strategy bodies ∧
      (response.body :: bodies).flatten = file.content ∧
      s.canister.cts_data.frontcode_files_hashes.get name =
        some (c.sha256 (response.body :: bodies).flatten)
  /-- What follows a question mark is not a part of the name. -/
  asked : ∀ name, '?' ∉ name.toList → file_name_of name = name

theorem served_files_match_their_hashes {s : CtsSystem} (r : CtsReachable c s) : FilesServed c s := by
  have h := files_certified r
  have hhashes (name : String) : s.canister.cts_data.frontcode_files_hashes.get name =
      (s.canister.cts_data.frontcode_files.lookup name).map fun file => c.sha256 file.content := by
    have hhash : File.sha256_hash c = fun file => c.sha256 file.content := funext sha256_hash_eq
    rw [← hhash]
    exact h.hashes name
  refine ⟨hhashes, h.certified, ?_, fun name => file_name_of_self⟩
  rintro name file hfile url rfl
  obtain ⟨body, chunks, hchunks, hdrop⟩ := file.first_chunk
  have hcontent : (body :: chunks).flatten = file.content := by
    rw [File.content, hchunks]
  refine ⟨_, chunks, http_request_of_file hfile hchunks, rfl, streams_of_file hfile hdrop,
    hcontent, ?_⟩
  rw [hcontent, hhashes, hfile, Option.map_some]

/-! ## Any files can become live -/

theorem batch_calls_reachable {calls : List BatchCall} {s : CtsSystem} (r : CtsReachable c s)
    (h : calls.foldlM (Canister.batchCall caller) s.canister = some s') :
    ∃ ran, CtsReachable c ⟨s', ran⟩ := by
  refine kept_by_script (I := fun canister => ∃ ran, CtsReachable c ⟨canister, ran⟩) ?_ ⟨s.ran, r⟩ h
  rintro canister call canister' ⟨ran, r⟩ hcall
  exact ⟨_, r.next (@CtsStep.call c ⟨canister, ran⟩ caller false (.batch call) canister' hcall)⟩

theorem every_files_can_be_live (c : Certifier) (caller : Principal) (files : Files) :
    ∃ s, CtsReachable c s ∧ s.canister.cts_data.frontcode_files = files ∧
      ∃ call ∈ s.ran, call.changesFiles = true := by
  have hstart : CtsReachable c ⟨init (some {caller}), []⟩ := .start ⟨_, rfl⟩
  have hcreator : caller ∈ (init (some {caller})).cts_data.batch_creators :=
    Finset.mem_singleton_self caller
  obtain ⟨calls, hcalls⟩ := every_batch_can_be_uploaded hcreator files
  obtain ⟨ran, hran⟩ := batch_calls_reachable hstart hcalls
  obtain ⟨committed, hcommit⟩ := commit_of_hash c ((init (some {caller})).withBatch files)
  obtain ⟨-, hfiles⟩ := controller_commit_batch_spec hcommit
  have hstep : CtsStep c ⟨(init (some {caller})).withBatch files, ran⟩
      ⟨committed, ran ++ [.controller_commit_batch (hash_of_files c files)]⟩ :=
    @CtsStep.call c _ caller true (.controller_commit_batch (hash_of_files c files)) committed hcommit
  exact ⟨_, .next hran hstep, hfiles, _, List.mem_append_right _ (List.mem_singleton_self _), rfl⟩

theorem test_files_are_served : ∃ s, CtsReachable testCertifier s ∧
    s.canister.cts_data.frontcode_files = testFiles [] ∧ s.canister.certified_data ≠ none ∧
    FilesServed testCertifier s := by
  obtain ⟨s, r, hfiles, hran⟩ :=
    every_files_can_be_live testCertifier (.of_byte 1) (testFiles [])
  have hserved := served_files_match_their_hashes r
  refine ⟨s, r, hfiles, ?_, hserved⟩
  rw [hserved.certified hran]
  exact Option.some_ne_none _

end Cts.Frontcode
