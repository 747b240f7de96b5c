import Cts.Frontcode.Model
import Cts.Lib.Records
import Mathlib.Data.List.TakeWhile

/-!
# What a batch hash binds

A controller commits a batch by its hash alone. The hash is that of the names and the contents, in
whatever order and chunks they come. The headers are served too, and are not a part of it.
-/

namespace Cts.Frontcode

open Lib

variable {c : Certifier}

/-! ## What is hashed -/

def File.content (file : File) : List Byte := file.content_chunks.flatten

/-- The names and the contents. -/
def contents (files : Files) : List (String × List Byte) :=
  files.entries.map fun e => (e.1, e.2.content)

def contentHash (c : Certifier) (e : String × List Byte) : List Byte :=
  (c.sha256 (as_bytes e.1)).bytes ++ (c.sha256 e.2).bytes

/-- The sorted hashes of the fields, one after another. -/
def fieldsBytes (c : Certifier) (l : List (String × List Byte)) : List Byte :=
  ((l.map (contentHash c)).insertionSort bytes_le).flatten

/-- All that is given to `sha256` for the hash of a batch. -/
def hashed (c : Certifier) (files : Files) : List (List Byte) :=
  fieldsBytes c (contents files) ::
    (contents files).flatMap fun e => [as_bytes e.1, e.2]

theorem foldl_update (hasher : List Byte) (chunks : List (List Byte)) :
    chunks.foldl Sha256.update hasher = hasher ++ chunks.flatten := by
  induction chunks generalizing hasher with
  | nil => simp
  | cons chunk chunks ih =>
    rw [List.foldl_cons, ih, Sha256.update, List.flatten_cons, List.append_assoc]

theorem sha256_hash_eq (file : File) : file.sha256_hash c = c.sha256 file.content := by
  rw [File.sha256_hash, foldl_update, List.nil_append, File.content]

theorem hash_of_files_eq (files : Files) :
    hash_of_files c files = c.sha256 (fieldsBytes c (contents files)) := by
  have hmap : files.entries.map (fun e => field_hash c e.1 e.2) =
      (contents files).map (contentHash c) := by
    rw [contents, List.map_map]
    apply List.map_congr_left
    intro e _
    rw [field_hash, sha256_hash_eq]
    rfl
  unfold hash_of_files
  simp only [foldl_update, List.nil_append, hmap]
  rfl

instance : Std.Total bytes_le := ⟨fun a b => le_total (a.map UInt8.toNat) (b.map UInt8.toNat)⟩

theorem bytes_le_trans (a b c : List Byte) (h : bytes_le a b) (h' : bytes_le b c) : bytes_le a c := by
  unfold bytes_le at *
  exact le_trans h h'

theorem bytes_le_antisymm (a b : List Byte) (h : bytes_le a b) (h' : bytes_le b a) : a = b := by
  unfold bytes_le at *
  exact map_toNat_injective (le_antisymm h h')

instance : IsTrans (List Byte) bytes_le := ⟨bytes_le_trans⟩

instance : Std.Antisymm bytes_le := ⟨bytes_le_antisymm⟩

/-! ## The hash does not depend on the order -/

variable {f₁ f₂ : Files}

theorem fieldsBytes_of_perm {l l' : List (String × List Byte)} (h : l.Perm l') :
    fieldsBytes c l = fieldsBytes c l' := by
  rw [fieldsBytes, fieldsBytes, Records.insertionSort_eq_iff.mpr (h.map (contentHash c))]

theorem hash_of_perm (h : (contents f₁).Perm (contents f₂)) :
    hash_of_files c f₁ = hash_of_files c f₂ := by
  rw [hash_of_files_eq, hash_of_files_eq, fieldsBytes_of_perm h]

/-! ## The hash tells names and contents -/

/-- `sha256` tells what it is given for the two batches apart. -/
def TellsApart (c : Certifier) (f₁ f₂ : Files) : Prop :=
  ∀ a ∈ hashed c f₁, ∀ b ∈ hashed c f₂, c.sha256 a = c.sha256 b → a = b

theorem contentHash_length (e : String × List Byte) : (contentHash c e).length = 64 := by
  rw [contentHash, List.length_append, Hash.length_eq, Hash.length_eq]

theorem as_bytes_injective : Function.Injective as_bytes := by
  intro s t h
  apply String.toByteArray_inj.mp
  apply ByteArray.ext
  exact Array.toList_inj.mp h

theorem mem_hashed {files : Files} {e : String × List Byte} (h : e ∈ contents files) :
    as_bytes e.1 ∈ hashed c files ∧ e.2 ∈ hashed c files := by
  constructor
  · exact List.mem_cons_of_mem _ (List.mem_flatMap.mpr ⟨e, h, List.mem_cons_self⟩)
  · exact List.mem_cons_of_mem _
      (List.mem_flatMap.mpr ⟨e, h, List.mem_cons_of_mem _ List.mem_cons_self⟩)

theorem contentHash_inj (h : TellsApart c f₁ f₂) {e₁ e₂ : String × List Byte}
    (h₁ : e₁ ∈ contents f₁) (h₂ : e₂ ∈ contents f₂) (he : contentHash c e₁ = contentHash c e₂) :
    e₁ = e₂ := by
  obtain ⟨hn₁, hc₁⟩ := mem_hashed (c := c) h₁
  obtain ⟨hn₂, hc₂⟩ := mem_hashed (c := c) h₂
  have hlen : (c.sha256 (as_bytes e₁.1)).bytes.length =
      (c.sha256 (as_bytes e₂.1)).bytes.length := by
    rw [Hash.length_eq, Hash.length_eq]
  obtain ⟨hname, hcontent⟩ := List.append_inj he hlen
  have hname := h _ hn₁ _ hn₂ (Hash.ext_bytes hname)
  have hcontent := h _ hc₁ _ hc₂ (Hash.ext_bytes hcontent)
  exact Prod.ext (as_bytes_injective hname) hcontent

theorem perm_of_hash (h : TellsApart c f₁ f₂) (hhash : hash_of_files c f₁ = hash_of_files c f₂) :
    (contents f₁).Perm (contents f₂) := by
  rw [hash_of_files_eq, hash_of_files_eq] at hhash
  have hbytes := h _ List.mem_cons_self _ List.mem_cons_self hhash
  have hsized : ∀ files : Files, Records.Sized 64
      (((contents files).map (contentHash c)).insertionSort bytes_le) := by
    intro files l hl
    rw [List.mem_insertionSort] at hl
    obtain ⟨e, -, rfl⟩ := List.mem_map.mp hl
    exact contentHash_length e
  have hsorted := (hsized f₁).flatten_inj (hsized f₂) (by decide) hbytes
  apply Records.perm_of_map (Records.insertionSort_eq_iff.mp hsorted)
  intro e₁ h₁ e₂ h₂ he
  exact contentHash_inj h h₁ h₂ he

/-! ## What is served -/

/-- The bodies that a client gets by following the tokens until there is none. -/
inductive Streams (d : CTSData) : Option StreamCallbackToken → List (List Byte) → Prop
  | done : Streams d none []
  | next {token : StreamCallbackToken} {r : StreamCallbackHttpResponse} {bodies : List (List Byte)}
      (h : http_request_stream_callback d token = some r) (hs : Streams d r.token bodies) :
      Streams d (some token) (r.body :: bodies)

theorem Streams.unique {d : CTSData} {token : Option StreamCallbackToken}
    {bodies bodies' : List (List Byte)} (h : Streams d token bodies) (h' : Streams d token bodies') :
    bodies = bodies' := by
  induction h generalizing bodies' with
  | done =>
    cases h'
    rfl
  | next hr _ ih =>
    cases h' with
    | next hr' hs' =>
      obtain rfl := Option.some.inj (hr.symm.trans hr')
      rw [ih hs']

section

variable {d : CTSData} {url : String} {headers : List Header} {content : List Byte}

theorem callback_of_file {token : StreamCallbackToken} {file : File} {body : List Byte}
    (hfile : d.frontcode_files.lookup token.key = some file)
    (hget : file.content_chunks[token.index]? = some body) :
    http_request_stream_callback d token = some
      { body := body
        token := create_opt_stream_callback_token d token.key file token.index } := by
  have hlt := (List.getElem?_eq_some_iff.mp hget).1
  have hlt32 := file.chunks_lt
  unfold http_request_stream_callback
  simp only [hfile, hget]
  rw [if_neg (by omega)]

theorem streams_of_file {file_name : String} {file : File}
    (hfile : d.frontcode_files.lookup file_name = some file) {bodies : List (List Byte)} {i : Nat}
    (h : file.content_chunks.drop (i + 1) = bodies) :
    Streams d (create_opt_stream_callback_token d file_name file i) bodies := by
  induction bodies generalizing i with
  | nil =>
    have hlen : file.content_chunks.length ≤ i + 1 := List.drop_eq_nil_iff.mp h
    rw [create_opt_stream_callback_token, if_neg (by omega)]
    exact .done
  | cons body bodies ih =>
    have hlt : i + 1 < file.content_chunks.length := by
      by_contra hle
      rw [List.drop_eq_nil_of_le (by omega)] at h
      cases h
    have hget : file.content_chunks[i + 1]? = some body := by
      rw [← List.head?_drop, h]
      rfl
    have hrest : file.content_chunks.drop (i + 1 + 1) = bodies := by
      rw [← List.drop_drop, h]
      rfl
    rw [create_opt_stream_callback_token, if_pos hlt]
    exact .next (callback_of_file hfile hget) (ih hrest)

/-- A client asks for a url and follows the tokens. The first header is the certificate. -/
structure Serves (c : Certifier) (d : CTSData) (url : String) (headers : List Header)
    (content : List Byte) : Prop where
  response : ∃ r certificate bodies, http_request c d url = some r ∧ r.status_code = 200 ∧
    r.headers = certificate :: headers ∧ Streams d r.streaming_strategy bodies ∧
    content = (r.body :: bodies).flatten

theorem File.first_chunk (file : File) : ∃ body chunks, file.content_chunks = body :: chunks ∧
    file.content_chunks.drop (0 + 1) = chunks := by
  obtain ⟨body, chunks, hchunks⟩ := List.exists_cons_of_ne_nil file.chunks_ne
  refine ⟨body, chunks, hchunks, ?_⟩
  rw [hchunks]
  rfl

theorem http_request_of_file {file : File} {body : List Byte} {chunks : List (List Byte)}
    (hfile : d.frontcode_files.lookup (file_name_of url) = some file)
    (hchunks : file.content_chunks = body :: chunks) :
    http_request c d url = some
      { status_code := 200
        headers := c.make_file_certificate_header d.frontcode_files_hashes (file_name_of url) ::
          file.headers
        body := body
        streaming_strategy := create_opt_stream_callback_token d (file_name_of url) file 0 } := by
  have hzero : file.content_chunks[0]? = some body := by
    rw [hchunks]
    rfl
  unfold http_request
  simp only [hfile, hzero]

theorem serves_iff : Serves c d url headers content ↔
    ∃ file, d.frontcode_files.lookup (file_name_of url) = some file ∧ file.headers = headers ∧
      file.content = content := by
  constructor
  · rintro ⟨r, certificate, bodies, hr, hstatus, hheaders, hs, rfl⟩
    cases hfile : d.frontcode_files.lookup (file_name_of url) with
    | none =>
      unfold http_request at hr
      simp only [hfile] at hr
      obtain rfl := Option.some.inj hr
      exact absurd hstatus (by decide)
    | some file =>
      obtain ⟨body, chunks, hchunks, hdrop⟩ := file.first_chunk
      obtain rfl := Option.some.inj ((http_request_of_file hfile hchunks).symm.trans hr)
      obtain rfl := (streams_of_file hfile hdrop).unique hs
      refine ⟨file, rfl, (List.cons.inj hheaders).2, ?_⟩
      rw [File.content, hchunks]
  · rintro ⟨file, hfile, rfl, rfl⟩
    obtain ⟨body, chunks, hchunks, hdrop⟩ := file.first_chunk
    have hcontent : file.content = (body :: chunks).flatten := by
      rw [File.content, hchunks]
    exact ⟨_, _, chunks, http_request_of_file hfile hchunks, rfl, rfl,
      streams_of_file hfile hdrop, hcontent⟩

end

/-- The same urls lead to the same headers and the same content. -/
def SameServed (c : Certifier) (d₁ d₂ : CTSData) : Prop :=
  ∀ url headers content, Serves c d₁ url headers content ↔ Serves c d₂ url headers content

/-! ## What a commit binds -/

theorem controller_commit_batch_spec {batch_hash : Hash} {s s' : Canister}
    (h : controller_commit_batch c true batch_hash s = some s') :
    batch_hash = hash_of_files c s.cts_data.current_batch ∧
      s'.cts_data.frontcode_files = s.cts_data.current_batch := by
  unfold controller_commit_batch at h
  rw [if_neg (by decide)] at h
  split_ifs at h with hhash
  obtain rfl := Option.some.inj h
  exact ⟨not_not.mp hhash, rfl⟩

/-- Whichever of two batches the canister holds when a hash is committed, it serves the same. -/
def Binds (c : Certifier) (f₁ f₂ : Files) : Prop :=
  ∀ batch_hash s₁ s₂ s₁' s₂', s₁.cts_data.current_batch = f₁ → s₂.cts_data.current_batch = f₂ →
    controller_commit_batch c true batch_hash s₁ = some s₁' →
    controller_commit_batch c true batch_hash s₂ = some s₂' →
    SameServed c s₁'.cts_data s₂'.cts_data

/-- A name with a question mark is cut off, so no url asks for it. -/
def SameHeaders (f₁ f₂ : Files) : Prop :=
  ∀ name file₁ file₂, '?' ∉ name.toList → f₁.lookup name = some file₁ → f₂.lookup name = some file₂ →
    file₁.headers = file₂.headers

theorem mem_contents {files : Files} {name : String} {content : List Byte} :
    (name, content) ∈ contents files ↔ ∃ file, files.lookup name = some file ∧
      file.content = content := by
  constructor
  · intro h
    obtain ⟨e, he, heq⟩ := List.mem_map.mp h
    obtain ⟨rfl, rfl⟩ := Prod.mk.inj heq
    exact ⟨e.2, AList.mem_lookup_iff.mpr he, rfl⟩
  · rintro ⟨file, hfile, rfl⟩
    exact List.mem_map.mpr ⟨⟨name, file⟩, AList.mem_lookup_iff.mp hfile, rfl⟩

theorem file_name_of_self {name : String} (h : '?' ∉ name.toList) : file_name_of name = name := by
  have htake : name.toList.takeWhile (· ≠ '?') = name.toList := by
    apply List.takeWhile_eq_self_iff.mpr
    intro x hx
    have hne : x ≠ '?' := fun heq => h (heq ▸ hx)
    simpa using hne
  rw [file_name_of, htake, String.ofList_toList]

theorem not_mem_file_name_of (url : String) : '?' ∉ (file_name_of url).toList := by
  intro hmem
  rw [file_name_of, String.toList_ofList] at hmem
  simpa using List.mem_takeWhile_imp hmem

theorem lookup_of_perm (h : (contents f₁).Perm (contents f₂)) {name : String} {file₁ : File}
    (h₁ : f₁.lookup name = some file₁) :
    ∃ file₂, f₂.lookup name = some file₂ ∧ file₂.content = file₁.content :=
  mem_contents.mp (h.subset (mem_contents.mpr ⟨file₁, h₁, rfl⟩))

theorem SameHeaders.symm (h : SameHeaders f₁ f₂) : SameHeaders f₂ f₁ :=
  fun name file₂ file₁ hname h₂ h₁ => (h name file₁ file₂ hname h₁ h₂).symm

theorem serves_of_perm (h : (contents f₁).Perm (contents f₂)) (hheaders : SameHeaders f₁ f₂)
    {d₁ d₂ : CTSData} (h₁ : d₁.frontcode_files = f₁) (h₂ : d₂.frontcode_files = f₂) {url : String}
    {headers : List Header} {content : List Byte} (hs : Serves c d₁ url headers content) :
    Serves c d₂ url headers content := by
  obtain ⟨file₁, hfile₁, rfl, rfl⟩ := serves_iff.mp hs
  rw [h₁] at hfile₁
  obtain ⟨file₂, hfile₂, hcontent⟩ := lookup_of_perm h hfile₁
  rw [← h₂] at hfile₂
  refine serves_iff.mpr ⟨file₂, hfile₂, ?_, hcontent⟩
  rw [h₂] at hfile₂
  exact (hheaders _ file₁ file₂ (not_mem_file_name_of url) hfile₁ hfile₂).symm

/-- The canister that has a batch and nothing else. -/
def holding (files : Files) : Canister :=
  { cts_data :=
      { frontcode_files := ∅
        frontcode_files_hashes := .new
        batch_creators := ∅
        current_batch := files }
    certified_data := none }

theorem commit_of_hash (c : Certifier) (s : Canister) : ∃ s',
    controller_commit_batch c true (hash_of_files c s.cts_data.current_batch) s = some s' := by
  have hsame : ¬ hash_of_files c s.cts_data.current_batch ≠ hash_of_files c s.cts_data.current_batch :=
    not_not.mpr rfl
  unfold controller_commit_batch
  rw [if_neg (by decide), if_neg hsame]
  exact ⟨_, rfl⟩

theorem SameHeaders.of_binds (h : Binds c f₁ f₂) (hhash : hash_of_files c f₁ = hash_of_files c f₂) :
    SameHeaders f₁ f₂ := by
  intro name file₁ file₂ hname h₁ h₂
  obtain ⟨s₁, hs₁⟩ := commit_of_hash c (holding f₁)
  obtain ⟨s₂, hs₂⟩ := commit_of_hash c (holding f₂)
  have hsame := h _ _ _ s₁ s₂ rfl rfl hs₁ (hhash ▸ hs₂)
  obtain ⟨-, hf₁⟩ := controller_commit_batch_spec hs₁
  obtain ⟨-, hf₂⟩ := controller_commit_batch_spec hs₂
  have hserves : Serves c s₁.cts_data name file₁.headers file₁.content := by
    refine serves_iff.mpr ⟨file₁, ?_, rfl, rfl⟩
    rw [hf₁, file_name_of_self hname]
    exact h₁
  obtain ⟨file, hfile, hheaders, -⟩ := serves_iff.mp ((hsame name _ _).mp hserves)
  rw [hf₂, file_name_of_self hname] at hfile
  obtain rfl := Option.some.inj (hfile.symm.trans h₂)
  exact hheaders.symm

/-- A batch hash binds the names and the contents, and not the headers. -/
theorem batch_hash_binds_iff (h : TellsApart c f₁ f₂) :
    (hash_of_files c f₁ = hash_of_files c f₂ ↔ (contents f₁).Perm (contents f₂)) ∧
    (Binds c f₁ f₂ ↔ ((contents f₁).Perm (contents f₂) → SameHeaders f₁ f₂)) := by
  refine ⟨⟨perm_of_hash h, hash_of_perm⟩, ?_⟩
  constructor
  · intro hbinds hperm
    exact .of_binds hbinds (hash_of_perm hperm)
  · intro hheaders batch_hash s₁ s₂ s₁' s₂' hb₁ hb₂ hc₁ hc₂
    obtain ⟨hhash₁, hf₁⟩ := controller_commit_batch_spec hc₁
    obtain ⟨hhash₂, hf₂⟩ := controller_commit_batch_spec hc₂
    rw [hb₁] at hhash₁ hf₁
    rw [hb₂] at hhash₂ hf₂
    have hperm := perm_of_hash h (hhash₁.symm.trans hhash₂)
    have hsame := hheaders hperm
    intro url headers content
    constructor
    · exact serves_of_perm hperm hsame hf₁ hf₂
    · exact serves_of_perm hperm.symm hsame.symm hf₂ hf₁

/-! ## Every batch can be uploaded -/

inductive BatchCall
  | create_batch
  | upload_file (q : UploadFile)
  | upload_file_chunks (file_path : String) (chunk_i : Nat) (chunk : List Byte)

def Canister.batchCall (caller : Principal) (s : Canister) : BatchCall → Option Canister
  | .create_batch => create_batch caller s
  | .upload_file q => upload_file caller q s
  | .upload_file_chunks file_path chunk_i chunk => upload_file_chunks caller file_path chunk_i chunk s

def Canister.withBatch (s : Canister) (files : Files) : Canister :=
  { s with cts_data := { s.cts_data with current_batch := files } }

section

variable {caller : Principal} {s : Canister} {files : Files} {name : String}

theorem File.ext_chunks {file file' : File} (hheaders : file.headers = file'.headers)
    (hchunks : file.content_chunks = file'.content_chunks) : file = file' := by
  cases file
  cases file'
  simp_all

theorem replace_insert (files : Files) (name : String) (file file' : File) :
    (files.insert name file).replace name file' = files.insert name file' := by
  have hentries : ∀ file : File, (files.insert name file).entries =
      ⟨name, file⟩ :: List.kerase name files.entries := fun _ => AList.entries_insert
  apply AList.ext
  change List.kreplace name file' (files.insert name file).entries = _
  rw [hentries, hentries]
  exact List.lookmap_cons_some _ _ (if_pos rfl)

theorem upload_chunk (hc : caller ∈ s.cts_data.batch_creators) {file : File} {i : Nat}
    (hi : i < file.content_chunks.length) (chunk : List Byte) :
    (s.withBatch (files.insert name file)).batchCall caller (.upload_file_chunks name i chunk) =
      some (s.withBatch (files.insert name (file.set_chunk i chunk))) := by
  have hlookup : (s.withBatch (files.insert name file)).cts_data.current_batch.lookup name =
      some file := AList.lookup_insert files
  have hreplace : (s.withBatch (files.insert name file)).cts_data.current_batch.replace name
      (file.set_chunk i chunk) = _ := replace_insert files name file (file.set_chunk i chunk)
  have hmem : caller ∈ (s.withBatch (files.insert name file)).cts_data.batch_creators := hc
  unfold Canister.batchCall upload_file_chunks
  simp only [hlookup, hreplace, hmem, hi, if_true]
  rfl

theorem upload_chunks (hc : caller ∈ s.cts_data.batch_creators) (files : Files) (name : String)
    (file : File) {chunks : List (List Byte)} (hlen : chunks.length = file.content_chunks.length)
    {k : Nat} (hk : k ≤ chunks.length) : ∃ (calls : List BatchCall) (file' : File),
      calls.foldlM (Canister.batchCall caller) (s.withBatch (files.insert name file)) =
        some (s.withBatch (files.insert name file')) ∧
      file'.headers = file.headers ∧
      file'.content_chunks = chunks.take k ++ file.content_chunks.drop k := by
  induction k with
  | zero => exact ⟨[], file, rfl, rfl, by simp⟩
  | succ k ih =>
    obtain ⟨calls, file', hcalls, hheaders, hchunks⟩ := ih (by omega)
    have hlt : k < chunks.length := hk
    have htake : (chunks.take k).length = k := List.length_take_of_le (by omega)
    have hi : k < file'.content_chunks.length := by
      rw [hchunks, List.length_append, List.length_drop, htake]
      omega
    refine ⟨calls ++ [.upload_file_chunks name k chunks[k]], file'.set_chunk k chunks[k], ?_, hheaders,
      ?_⟩
    · rw [List.foldlM_append, hcalls]
      exact (bind_pure _).trans (upload_chunk hc hi chunks[k])
    · have hdrop : file.content_chunks.drop k =
          file.content_chunks[k] :: file.content_chunks.drop (k + 1) :=
        List.drop_eq_getElem_cons (by omega)
      change file'.content_chunks.set k chunks[k] = _
      rw [hchunks, hdrop, List.set_append_right _ _ htake.le, htake, Nat.sub_self, List.set_cons_zero,
        List.take_succ_eq_append_getElem hlt, List.append_assoc]
      rfl

theorem upload_first (hc : caller ∈ s.cts_data.batch_creators) (files : Files) (q : UploadFile)
    (hq : q.chunks ≠ 0) : ∃ file : File,
      (s.withBatch files).batchCall caller (.upload_file q) =
        some (s.withBatch (files.insert q.filename file)) ∧
      file.headers = q.headers ∧ file.content_chunks.length = q.chunks := by
  have hmem : caller ∈ (s.withBatch files).cts_data.batch_creators := hc
  unfold Canister.batchCall upload_file
  simp only [hmem, hq, if_true, dif_neg, not_false_eq_true]
  refine ⟨_, rfl, rfl, ?_⟩
  rw [List.length_set, List.length_replicate]

theorem upload_whole_file (hc : caller ∈ s.cts_data.batch_creators) (files : Files) (name : String)
    (file : File) :
    ∃ calls : List BatchCall, calls.foldlM (Canister.batchCall caller) (s.withBatch files) =
      some (s.withBatch (files.insert name file)) := by
  have hne : file.content_chunks.length ≠ 0 := fun hzero =>
    file.chunks_ne (List.length_eq_zero_iff.mp hzero)
  let q : UploadFile := ⟨name, file.headers, [], file.content_chunks.length, file.chunks_lt⟩
  obtain ⟨first, hfirst, hheaders, hlen⟩ := upload_first hc files q hne
  obtain ⟨calls, file', hcalls, hheaders', hchunks⟩ :=
    upload_chunks hc files name first hlen.symm le_rfl
  have hdrop : first.content_chunks.drop file.content_chunks.length = [] :=
    List.drop_eq_nil_of_le hlen.le
  rw [List.take_length, hdrop, List.append_nil] at hchunks
  have hfile : file' = file := File.ext_chunks (hheaders'.trans hheaders) hchunks
  rw [hfile] at hcalls
  refine ⟨.upload_file q :: calls, ?_⟩
  rw [List.foldlM_cons, hfirst]
  exact hcalls

/-- Whatever files a batch is to have, a batch creator can upload them. -/
theorem every_batch_can_be_uploaded (hc : caller ∈ s.cts_data.batch_creators) (files : Files) :
    ∃ calls : List BatchCall, calls.foldlM (Canister.batchCall caller) s =
      some (s.withBatch files) := by
  have huploads : ∃ calls : List BatchCall,
      calls.foldlM (Canister.batchCall caller) (s.withBatch ∅) = some (s.withBatch files) := by
    refine AList.insertRec ⟨[], rfl⟩ ?_ files
    rintro name file files - ⟨calls, hcalls⟩
    obtain ⟨calls', hcalls'⟩ := upload_whole_file hc files name file
    refine ⟨calls ++ calls', ?_⟩
    rw [List.foldlM_append, hcalls]
    exact hcalls'
  obtain ⟨calls, hcalls⟩ := huploads
  have hcreate : s.batchCall caller .create_batch = some (s.withBatch ∅) := if_pos hc
  refine ⟨.create_batch :: calls, ?_⟩
  rw [List.foldlM_cons, hcreate]
  exact hcalls

end

/-! ## The batch of the source's test -/

theorem padded_length (bytes : List Byte) : ((bytes ++ List.replicate 32 0).take 32).length = 32 := by
  rw [List.length_take, List.length_append, List.length_replicate]
  omega

def padded (bytes : List Byte) : Hash := ⟨(bytes ++ List.replicate 32 0).take 32, padded_length bytes⟩

/-- The two names, the two contents and the batch, with their values of `sha256`. -/
def testSha256Values : List (List Byte × List Byte) :=
  [(as_bytes "hi",
      [143, 67, 67, 70, 100, 143, 107, 150, 223, 137, 221, 169, 1, 197, 23, 107, 16, 166,
      216, 57, 97, 221, 60, 26, 200, 139, 89, 178, 220, 50, 122, 164]),
    (as_bytes "abc",
      [186, 120, 22, 191, 143, 1, 207, 234, 65, 65, 64, 222, 93, 174, 34, 35, 176, 3, 97,
      163, 150, 23, 122, 156, 180, 16, 255, 97, 242, 0, 21, 173]),
    ([0, 1, 2, 3, 4],
      [8, 187, 94, 93, 110, 170, 193, 4, 158, 222, 8, 147, 211, 14, 208, 34, 177, 164,
      217, 181, 180, 141, 180, 20, 135, 31, 81, 201, 203, 53, 40, 61]),
    ([5, 4, 3, 2, 1, 5, 4, 3, 2, 1],
      [220, 86, 214, 229, 227, 154, 76, 38, 234, 29, 90, 136, 249, 100, 255, 132, 105, 5,
      157, 160, 104, 144, 40, 233, 28, 166, 8, 194, 159, 152, 195, 209])]

def test_batch_hash : List Byte :=
      [219, 253, 218, 23, 132, 249, 50, 93, 170, 82, 202, 17, 243, 251, 73, 76, 47, 206,
      49, 222, 141, 190, 252, 117, 226, 21, 20, 91, 35, 106, 131, 48]

def testCertifier : Certifier where
  sha256 bytes := padded ((testSha256Values.lookup bytes).getD test_batch_hash)
  root_hash _ := padded []
  labeled_hash _ _ := padded []
  make_file_certificate_header _ _ := ("IC-Certificate", "")

theorem one_ne (body : List Byte) (bodies : List (List Byte)) : body :: bodies ≠ [] :=
  List.cons_ne_nil _ _

theorem one_lt (body : List Byte) : [body].length < 2 ^ 32 := by simp

theorem two_lt (body body' : List Byte) : [body, body'].length < 2 ^ 32 := by simp

def testFiles (headers : List Header) : Files :=
  (AList.singleton "hi" ⟨headers, [[0, 1, 2, 3, 4]], one_ne _ _, one_lt _⟩).insert "abc"
    ⟨[], [[5, 4, 3, 2, 1], [5, 4, 3, 2, 1]], one_ne _ _, two_lt _ _⟩

/-- The same files in another order and with other chunks. -/
def testFilesAgain : Files :=
  (AList.singleton "abc" ⟨[], [[5, 4, 3], [2, 1, 5, 4, 3, 2, 1]], one_ne _ _, two_lt _ _⟩).insert "hi"
    ⟨[], [[0, 1, 2, 3, 4]], one_ne _ _, one_lt _⟩

example : hash_of_files testCertifier (testFiles []) = padded test_batch_hash := by decide +kernel

theorem test_batch_is_bound :
    hash_of_files testCertifier (testFiles []) = hash_of_files testCertifier testFilesAgain ∧
      Binds testCertifier (testFiles []) testFilesAgain := by
  have htell : TellsApart testCertifier (testFiles []) testFilesAgain := by
    unfold TellsApart
    decide +kernel
  have hperm : (contents (testFiles [])).Perm (contents testFilesAgain) := by decide +kernel
  refine ⟨(batch_hash_binds_iff htell).1.mpr hperm, (batch_hash_binds_iff htell).2.mpr ?_⟩
  intro _ name file₁ file₂ _ h₁ h₂
  have hnone₁ : ∀ e ∈ (testFiles []).entries, e.2.headers = [] := by decide +kernel
  have hnone₂ : ∀ e ∈ testFilesAgain.entries, e.2.headers = [] := by decide +kernel
  exact (hnone₁ _ (AList.mem_lookup_iff.mp h₁)).trans (hnone₂ _ (AList.mem_lookup_iff.mp h₂)).symm

/-- Both batches have the hash of the test, and one of them is served with a header more. -/
theorem headers_are_not_bound : ¬ ∀ c f₁ f₂, TellsApart c f₁ f₂ → Binds c f₁ f₂ := by
  intro h
  have htell : TellsApart testCertifier (testFiles []) (testFiles [("Link", "/")]) := by
    unfold TellsApart
    decide +kernel
  have hsame := SameHeaders.of_binds (h _ _ _ htell) (hash_of_perm (List.Perm.refl _))
  have h₁ : ((testFiles []).lookup "hi").map File.headers = some [] := by decide +kernel
  have h₂ : ((testFiles [("Link", "/")]).lookup "hi").map File.headers = some [("Link", "/")] := by
    decide +kernel
  obtain ⟨file₁, hfile₁, hheaders₁⟩ := Option.map_eq_some_iff.mp h₁
  obtain ⟨file₂, hfile₂, hheaders₂⟩ := Option.map_eq_some_iff.mp h₂
  have heq := hsame "hi" file₁ file₂ (by decide +kernel) hfile₁ hfile₂
  rw [hheaders₁, hheaders₂] at heq
  cases heq

end Cts.Frontcode
