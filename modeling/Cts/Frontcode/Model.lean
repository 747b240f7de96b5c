import Mathlib.Data.Finset.SDiff
import Mathlib.Data.List.AList
import Mathlib.Data.List.Sort
import Cts.Icrc

/-!
# The frontcode canister

`canisters/cts/src/frontcode.rs` and the methods of `lib.rs` that change or serve the files. A `none`
is a trap: the call has no effect and no reply. A hash map is an association list, in the order in
which it is iterated.
-/

namespace Cts.Frontcode

/-! ## Data -/

/-- What a hash of 256 bits is. -/
structure Hash where
  bytes : List Byte
  length_eq : bytes.length = 32

theorem Hash.ext_bytes {a b : Hash} (h : a.bytes = b.bytes) : a = b := by
  cases a
  cases b
  subst h
  rfl

theorem Hash.bytes_eq_iff {a b : Hash} : a.bytes = b.bytes ↔ a = b :=
  ⟨ext_bytes, congrArg bytes⟩

instance : DecidableEq Hash := fun _ _ => decidable_of_iff _ Hash.bytes_eq_iff

abbrev Header := String × String

/-- The first upload of a file makes its chunks, at least one, and a `u32` counts them. -/
structure File where
  headers : List Header
  content_chunks : List (List Byte)
  chunks_ne : content_chunks ≠ []
  chunks_lt : content_chunks.length < 2 ^ 32
  deriving DecidableEq

abbrev Files := AList fun _ : String => File

/-- An `RbTree` is the calls that made it, newest first: an insertion with its hash, or a deletion.
The shape of the tree, and so its root hash, may depend on all of them. -/
structure FilesHashes where
  calls : List (String × Option Hash)
  deriving DecidableEq

namespace FilesHashes

def new : FilesHashes := ⟨[]⟩

def insert (files_hashes : FilesHashes) (filename : String) (hash : Hash) : FilesHashes :=
  ⟨(filename, some hash) :: files_hashes.calls⟩

def delete (files_hashes : FilesHashes) (filename : String) : FilesHashes :=
  ⟨(filename, none) :: files_hashes.calls⟩

def get (files_hashes : FilesHashes) (filename : String) : Option Hash :=
  (files_hashes.calls.lookup filename).join

variable (files_hashes : FilesHashes) (filename name : String) (hash : Hash)

@[simp]
theorem get_new : new.get filename = none := rfl

theorem get_insert : (files_hashes.insert filename hash).get name =
    if name = filename then some hash else files_hashes.get name := by
  unfold get insert
  by_cases h : name = filename
  · rw [if_pos h, h, List.lookup_cons_self, Option.join_some]
  · rw [if_neg h, List.lookup_cons, beq_false_of_ne h]

theorem get_delete : (files_hashes.delete filename).get name =
    if name = filename then none else files_hashes.get name := by
  unfold get delete
  by_cases h : name = filename
  · rw [if_pos h, h, List.lookup_cons_self, Option.join_some]
  · rw [if_neg h, List.lookup_cons, beq_false_of_ne h]

end FilesHashes

structure CTSData where
  frontcode_files : Files
  frontcode_files_hashes : FilesHashes
  batch_creators : Finset Principal
  current_batch : Files

/-- The canister's data and its certified data. -/
structure Canister where
  cts_data : CTSData
  certified_data : Option Hash

/-- What comes from `sha2`, from `ic_certified_map` and from the system. -/
structure Certifier where
  sha256 : List Byte → Hash
  root_hash : FilesHashes → Hash
  labeled_hash : List Byte → Hash → Hash
  make_file_certificate_header : FilesHashes → String → Header

def as_bytes (s : String) : List Byte := s.toUTF8.data.toList

def LABEL_ASSETS : List Byte := as_bytes "http_assets"

/-! ## Hashes -/

/-- A `Sha256` hasher is the bytes that it was given. -/
def Sha256.update (hasher chunk : List Byte) : List Byte := hasher ++ chunk

def File.sha256_hash (c : Certifier) (file : File) : Hash :=
  c.sha256 (file.content_chunks.foldl Sha256.update [])

/-- Arrays of bytes are sorted as lists of numbers. -/
def bytes_le (a b : List Byte) : Prop := a.map UInt8.toNat ≤ b.map UInt8.toNat

instance : DecidableRel bytes_le := fun a b =>
  inferInstanceAs (Decidable (a.map UInt8.toNat ≤ b.map UInt8.toNat))

def field_hash (c : Certifier) (filename : String) (file : File) : List Byte :=
  (c.sha256 (as_bytes filename)).bytes ++ (file.sha256_hash c).bytes

def hash_of_files (c : Certifier) (files : Files) : Hash :=
  let fields_hashes := files.entries.map fun e => field_hash c e.1 e.2
  c.sha256 ((fields_hashes.insertionSort bytes_le).foldl Sha256.update [])

def set_root_hash (c : Certifier) (cts_data : CTSData) : Hash :=
  c.labeled_hash LABEL_ASSETS (c.root_hash cts_data.frontcode_files_hashes)

/-! ## Batches -/

def create_batch (caller : Principal) (s : Canister) : Option Canister :=
  if caller ∈ s.cts_data.batch_creators then
    some { s with cts_data := { s.cts_data with current_batch := ∅ } }
  else none

structure UploadFile where
  filename : String
  headers : List Header
  first_chunk : List Byte
  chunks : Nat
  chunks_lt : chunks < 2 ^ 32

theorem UploadFile.first_ne (q : UploadFile) (h : q.chunks ≠ 0) :
    (List.replicate q.chunks ([] : List Byte)).set 0 q.first_chunk ≠ [] := by
  intro hnil
  have hlen := congrArg List.length hnil
  rw [List.length_set, List.length_replicate] at hlen
  exact h hlen

theorem UploadFile.first_lt (q : UploadFile) :
    ((List.replicate q.chunks ([] : List Byte)).set 0 q.first_chunk).length < 2 ^ 32 := by
  rw [List.length_set, List.length_replicate]
  exact q.chunks_lt

def upload_file (caller : Principal) (q : UploadFile) (s : Canister) : Option Canister :=
  if caller ∈ s.cts_data.batch_creators then
    if h : q.chunks = 0 then none
    else some { s with cts_data := { s.cts_data with
      current_batch := s.cts_data.current_batch.insert q.filename
        { headers := q.headers
          content_chunks := (List.replicate q.chunks []).set 0 q.first_chunk
          chunks_ne := q.first_ne h
          chunks_lt := q.first_lt } } }
  else none

theorem File.set_ne (file : File) (chunk_i : Nat) (chunk : List Byte) :
    file.content_chunks.set chunk_i chunk ≠ [] := by
  intro hnil
  have hlen := congrArg List.length hnil
  rw [List.length_set] at hlen
  exact file.chunks_ne (List.length_eq_zero_iff.mp hlen)

theorem File.set_lt (file : File) (chunk_i : Nat) (chunk : List Byte) :
    (file.content_chunks.set chunk_i chunk).length < 2 ^ 32 := by
  rw [List.length_set]
  exact file.chunks_lt

def File.set_chunk (file : File) (chunk_i : Nat) (chunk : List Byte) : File :=
  { file with
    content_chunks := file.content_chunks.set chunk_i chunk
    chunks_ne := file.set_ne chunk_i chunk
    chunks_lt := file.set_lt chunk_i chunk }

def upload_file_chunks (caller : Principal) (file_path : String) (chunk_i : Nat) (chunk : List Byte)
    (s : Canister) : Option Canister :=
  if caller ∈ s.cts_data.batch_creators then
    match s.cts_data.current_batch.lookup file_path with
    | some file =>
      if chunk_i < file.content_chunks.length then
        some { s with cts_data := { s.cts_data with
          current_batch := s.cts_data.current_batch.replace file_path (file.set_chunk chunk_i chunk) } }
      else none
    | none => none
  else none

/-- The loop over the files of the batch. -/
def files_hashes_of (c : Certifier) (files : Files) : FilesHashes :=
  files.entries.foldl (fun files_hashes e => files_hashes.insert e.1 (e.2.sha256_hash c)) .new

def controller_commit_batch (c : Certifier) (caller_is_controller : Bool) (batch_hash : Hash)
    (s : Canister) : Option Canister :=
  if caller_is_controller = false then none
  else if batch_hash ≠ hash_of_files c s.cts_data.current_batch then none
  else
    let d := { s.cts_data with
      frontcode_files := s.cts_data.current_batch
      frontcode_files_hashes := files_hashes_of c s.cts_data.current_batch
      current_batch := ∅ }
    some
      { cts_data := d
        certified_data := some (set_root_hash c d) }

/-! ## Other methods of the controllers -/

def controller_clear_files (c : Certifier) (caller_is_controller : Bool) (s : Canister) :
    Option Canister :=
  if caller_is_controller = false then none
  else
    let d := { s.cts_data with frontcode_files := ∅, frontcode_files_hashes := .new }
    some
      { cts_data := d
        certified_data := some (set_root_hash c d) }

def controller_clear_file (c : Certifier) (caller_is_controller : Bool) (filename : String)
    (s : Canister) : Option Canister :=
  if caller_is_controller = false then none
  else
    let d := { s.cts_data with
      frontcode_files := s.cts_data.frontcode_files.erase filename
      frontcode_files_hashes := s.cts_data.frontcode_files_hashes.delete filename }
    some
      { cts_data := d
        certified_data := some (set_root_hash c d) }

def controller_add_batch_creators (caller_is_controller : Bool) (batch_creators : Finset Principal)
    (s : Canister) : Option Canister :=
  if caller_is_controller = false then none
  else some { s with cts_data := { s.cts_data with
    batch_creators := s.cts_data.batch_creators ∪ batch_creators } }

def controller_remove_batch_creators (caller_is_controller : Bool)
    (batch_creators : Finset Principal) (s : Canister) : Option Canister :=
  if caller_is_controller = false then none
  else some { s with cts_data := { s.cts_data with
    batch_creators := s.cts_data.batch_creators \ batch_creators } }

def init (batch_creators : Option (Finset Principal)) : Canister :=
  { cts_data :=
      { frontcode_files := ∅
        frontcode_files_hashes := .new
        batch_creators := batch_creators.getD ∅
        current_batch := ∅ }
    certified_data := none }

/-! ## Views of the hashes -/

def view_current_batch_hash (c : Certifier) (d : CTSData) : Option Hash :=
  if d.current_batch.entries.length = 0 then none else some (hash_of_files c d.current_batch)

def view_live_files_hash (c : Certifier) (d : CTSData) : Option Hash :=
  if d.frontcode_files.entries.length = 0 then none else some (hash_of_files c d.frontcode_files)

/-! ## Responses -/

structure StreamCallbackToken where
  key : String
  content_encoding : String
  index : Nat
  sha256 : Option Hash
  deriving DecidableEq

/-- The streaming strategy is the token of its callback. -/
structure HttpResponse where
  status_code : Nat
  headers : List Header
  body : List Byte
  streaming_strategy : Option StreamCallbackToken
  deriving DecidableEq

structure StreamCallbackHttpResponse where
  body : List Byte
  token : Option StreamCallbackToken
  deriving DecidableEq

def create_opt_stream_callback_token (d : CTSData) (file_name : String) (file : File)
    (chunk_i : Nat) : Option StreamCallbackToken :=
  if chunk_i + 1 < file.content_chunks.length then
    some
      { key := file_name
        content_encoding :=
          ((file.headers.find? fun header => header.1.toLower = "content-encoding").map
            Prod.snd).getD ""
        index := chunk_i + 1
        sha256 := d.frontcode_files_hashes.get file_name }
  else none

/-- `url.split("?").next()`. -/
def file_name_of (url : String) : String := String.ofList (url.toList.takeWhile (· ≠ '?'))

def http_request (c : Certifier) (d : CTSData) (url : String) : Option HttpResponse :=
  let file_name := file_name_of url
  match d.frontcode_files.lookup file_name with
  | none => some
    { status_code := 404
      headers := []
      body := []
      streaming_strategy := none }
  | some file =>
    match file.content_chunks[0]? with
    | none => none
    | some body => some
      { status_code := 200
        headers := c.make_file_certificate_header d.frontcode_files_hashes file_name :: file.headers
        body := body
        streaming_strategy := create_opt_stream_callback_token d file_name file 0 }

/-- `to_usize` fails from `2 ^ 32` on. -/
def http_request_stream_callback (d : CTSData) (token : StreamCallbackToken) :
    Option StreamCallbackHttpResponse :=
  match d.frontcode_files.lookup token.key with
  | none => none
  | some file =>
    if 2 ^ 32 ≤ token.index then none
    else match file.content_chunks[token.index]? with
      | none => none
      | some body => some
        { body := body
          token := create_opt_stream_callback_token d token.key file token.index }

end Cts.Frontcode
