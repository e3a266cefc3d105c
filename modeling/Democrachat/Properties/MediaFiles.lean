import Democrachat.Store.MediaFiles

/-!
# A blob is served whole until it is deleted

Uploads, downloads and deletions of any keys run side by side on the media directory, call by call of
the file system.  A download that starts after an upload has answered finds the whole blob as long
as nobody deletes it, and nothing once a deletion has ended.
-/

namespace Democrachat

open Library Library.Prog Library.Utf8 FsMediaStore MediaDir

/-! ## Files of other names -/

/-- The file of the name. -/
def MediaDir.file (name : String) (d : MediaDir) : Option (List UInt8) := d.files name

section Apart

variable {name path : String}

theorem file_update (hne : name ≠ path) (d : MediaDir) (content : Option (List UInt8)) :
    file name { d with files := Function.update d.files path content } = file name d := by
  show Function.update d.files path content name = d.files name
  exact Function.update_of_ne hne ..

theorem guarantees_createFile (hne : name ≠ path) :
    (createFile path).Guarantees (fun s t => file name s = file name t) := by
  apply guarantees_call
  intro d
  split
  next => rfl
  next => exact (file_update hne d _).symm

theorem guarantees_appendByte (hne : name ≠ path) (byte : UInt8) :
    (appendByte path byte).Guarantees (fun s t => file name s = file name t) := by
  apply guarantees_call
  intro d
  split
  next => rfl
  next => exact (file_update hne d _).symm

theorem guarantees_writeAll (hne : name ≠ path) (bytes : List UInt8) :
    (writeAll path bytes).Guarantees (fun s t => file name s = file name t) := by
  induction bytes with
  | nil => exact guarantees_pure _
  | cons byte bytes ih =>
    exact (guarantees_appendByte hne byte).bind (fun _ => ih.ite (guarantees_pure _))

theorem guarantees_writeFile (hne : name ≠ path) (bytes : List UInt8) :
    (writeFile path bytes).Guarantees (fun s t => file name s = file name t) :=
  (guarantees_createFile hne).bind
    (fun _ => (guarantees_writeAll hne bytes).ite (guarantees_pure _))

theorem guarantees_removeFile (hne : name ≠ path) :
    (removeFile path).Guarantees (fun s t => file name s = file name t) :=
  guarantees_modify (fun d => (file_update hne d none).symm)

theorem guarantees_put {digests : BytesOf 16} (hbytes : name ≠ mintKey digests)
    (htype : name ≠ contentTypeFile (mintKey digests)) (contentType : String)
    (bytes : List UInt8) :
    (put digests contentType bytes).Guarantees (fun s t => file name s = file name t) :=
  (guarantees_writeFile hbytes bytes).bind
    (fun _ => ((guarantees_writeFile htype (asBytes contentType)).bind
      (fun _ => (guarantees_pure _).ite (guarantees_pure _))).ite (guarantees_pure _))

theorem guarantees_delete {key : String} (hbytes : name ≠ key)
    (htype : name ≠ contentTypeFile key) :
    (delete key).Guarantees (fun s t => file name s = file name t) := by
  unfold delete
  split
  next => exact guarantees_pure _
  next path hpath =>
    obtain ⟨rfl, -⟩ := isHexDigit_of_pathFor hpath
    exact (guarantees_removeFile hbytes).bind (fun _ => guarantees_removeFile htype)

theorem guarantees_readFile {G : MediaDir → MediaDir → Prop} (hG : ∀ d, G d d) :
    (readFile path).Guarantees G := guarantees_query hG _

theorem guarantees_get {G : MediaDir → MediaDir → Prop} (hG : ∀ d, G d d) (key : String) :
    (FsMediaStore.get key).Guarantees G := by
  unfold FsMediaStore.get
  split
  next => exact guarantees_pure _
  next =>
    apply (guarantees_readFile hG).bind
    intro content
    cases content with
    | none => exact guarantees_pure _
    | some bytes => exact (guarantees_readFile hG).bind (fun _ => guarantees_pure _)

/-- What leaves both files alone leaves the blob alone. -/
theorem guarantees_blob {α : Type} {key : String} {p : Prog MediaDir α}
    (hbytes : p.Guarantees (fun s t => file key s = file key t))
    (htype : p.Guarantees
      (fun s t => file (contentTypeFile key) s = file (contentTypeFile key) t)) :
    p.Guarantees (fun s t => blob key s = blob key t) := by
  induction p with
  | ret a => trivial
  | step w k ih =>
    exact ⟨fun d => Prod.ext (hbytes.1 d) (htype.1 d), fun d => ih d (hbytes.2 d) (htype.2 d)⟩

end Apart

/-! ## What a call leaves alone -/

section

variable {key : String} (hkey : ∀ c ∈ key.toList, isHexDigit c = true)

include hkey

theorem guarantees_delete_blob {other : String} (hne : other ≠ key) :
    (delete other).Guarantees (fun s t => blob key s = blob key t) := by
  cases hpath : pathFor other with
  | none =>
    rw [delete, hpath]
    exact guarantees_pure _
  | some path =>
    have hother := (isHexDigit_of_pathFor hpath).2
    apply guarantees_blob
    · exact guarantees_delete hne.symm (ne_contentTypeFile hkey other)
    · exact guarantees_delete (ne_contentTypeFile hother key).symm
        (contentTypeFile_injective.ne hne.symm)

/-- Only an upload that mints the key and a deletion that names it touch a blob. -/
theorem guarantees_prog {call : MediaCall}
    (hput : ∀ digests contentType bytes, call = .put digests contentType bytes →
      mintKey digests ≠ key)
    (hdelete : call ≠ .delete key) :
    call.prog.Guarantees (fun s t => blob key s = blob key t) := by
  cases call with
  | put digests contentType bytes =>
    have hne : key ≠ mintKey digests := Ne.symm (hput _ _ _ rfl)
    have hbytes := guarantees_put hne (ne_contentTypeFile hkey _) contentType bytes
    have htype := guarantees_put (ne_contentTypeFile (isHexDigit_toHex digests.1) key).symm
      (contentTypeFile_injective.ne hne) contentType bytes
    exact (guarantees_blob hbytes htype).bind (fun _ => trivial)
  | get other =>
    have hread : (FsMediaStore.get other).Guarantees (fun s t => blob key s = blob key t) := by
      apply guarantees_get
      intro d
      rfl
    exact hread.bind (fun _ => trivial)
  | delete other =>
    have hne : other ≠ key := fun heq => hdelete (heq ▸ rfl)
    exact (guarantees_delete_blob hkey hne).bind (fun _ => trivial)
  | setFull isFull =>
    have hkept : (Prog.modify (fun d : MediaDir => { d with isFull })).Guarantees
        (fun s t => blob key s = blob key t) := guarantees_modify (fun _ => rfl)
    exact hkept.bind (fun _ => trivial)

omit hkey in
theorem guarantees_removeFile_fades (name : String) :
    (removeFile name).Guarantees (fun s t => Fades (blob key s) (blob key t)) := by
  apply guarantees_modify
  intro d
  have hfile : ∀ path, Function.update d.files name none path = d.files path ∨
      Function.update d.files name none path = none := by
    intro path
    by_cases hpath : path = name
    · subst hpath
      exact .inr (Function.update_self ..)
    · exact .inl (Function.update_of_ne hpath ..)
  exact ⟨hfile key, hfile (contentTypeFile key)⟩

/-- Whatever does not upload it can at most remove a blob. -/
theorem guarantees_prog_fades {call : MediaCall}
    (hput : ∀ digests contentType bytes, call = .put digests contentType bytes →
      mintKey digests ≠ key) :
    call.prog.Guarantees (fun s t => Fades (blob key s) (blob key t)) := by
  by_cases hdelete : call = .delete key
  · subst hdelete
    have hdeletes : (delete key).Guarantees (fun s t => Fades (blob key s) (blob key t)) := by
      unfold delete
      split
      next => exact guarantees_pure _
      next path _ =>
        exact (guarantees_removeFile_fades path).bind
          (fun _ => guarantees_removeFile_fades (contentTypeFile path))
    exact hdeletes.bind (fun _ => trivial)
  · apply (guarantees_prog hkey hput hdelete).mono
    intro s t h
    rw [h]
    exact Fades.refl _

end

/-! ## Uploading -/

theorem endures_writeAll (name : String) (written bytes : List UInt8) :
    Endures (file name) Eq (fun ok content => ok = true → content = some (written ++ bytes))
      (writeAll name bytes) (some written) := by
  induction bytes generalizing written with
  | nil =>
    intro _
    rw [List.append_nil]
  | cons byte bytes ih =>
    intro d hd
    by_cases hfull : d.isFull = true
    · simp only [hfull, if_true]
      intro hok
      cases hok
    · simp only [hfull]
      have hfile : file name
          { d with files := Function.update d.files name ((d.files name).map (· ++ [byte])) } =
            some (written ++ [byte]) := by
        show Function.update d.files name ((d.files name).map (· ++ [byte])) name = _
        rw [Function.update_self]
        change some written = d.files name at hd
        rw [← hd]
        rfl
      have hrest := ih (written ++ [byte])
      rw [List.append_assoc, List.singleton_append] at hrest
      rw [← hfile] at hrest
      exact hrest

theorem endures_writeFile (name : String) (bytes : List UInt8) (l : Option (List UInt8)) :
    Endures (file name) Eq (fun ok content => ok = true → content = some bytes)
      (writeFile name bytes) l := by
  intro d hd
  by_cases hfull : d.isFull = true
  · simp only [hfull, if_true]
    intro hok
    cases hok
  · simp only [hfull]
    have hfile : file name { d with files := Function.update d.files name (some []) } =
        some [] := Function.update_self ..
    have hrest := endures_writeAll name [] bytes
    rw [List.nil_append, ← hfile] at hrest
    exact hrest

theorem endures_put_bytes (digests : BytesOf 16) (contentType : String) (bytes : List UInt8)
    (l : Option (List UInt8)) :
    Endures (file (mintKey digests)) Eq
      (fun answer content => ∀ key, answer = .key (some key) → content = some bytes)
      (MediaCall.put digests contentType bytes).prog l := by
  apply Endures.map
  apply Endures.bind (endures_writeFile (mintKey digests) bytes l)
  intro ok content hcontent
  cases ok with
  | false => exact fun key hkey => nomatch hkey
  | true =>
    have hspared := guarantees_writeFile
      (ne_contentTypeFile (isHexDigit_toHex digests.1) (mintKey digests)) (asBytes contentType)
    apply Endures.bind (hspared.endures content)
    intro ok content' hsame
    cases ok with
    | false => exact fun key hkey => nomatch hkey
    | true => exact fun key _ => hsame.trans (hcontent rfl)

theorem endures_put_contentType (digests : BytesOf 16) (contentType : String)
    (bytes : List UInt8) (l : Option (List UInt8)) :
    Endures (file (contentTypeFile (mintKey digests))) Eq
      (fun answer content => ∀ key, answer = .key (some key) →
        content = some (asBytes contentType))
      (MediaCall.put digests contentType bytes).prog l := by
  apply Endures.map
  have hspared := guarantees_writeFile
    (ne_contentTypeFile (isHexDigit_toHex digests.1) (mintKey digests)).symm bytes
  apply Endures.bind (hspared.endures l)
  intro ok content _
  cases ok with
  | false => exact fun key hkey => nomatch hkey
  | true =>
    apply Endures.bind (endures_writeFile (contentTypeFile (mintKey digests)) _ content)
    intro ok content' hcontent
    cases ok with
    | false => exact fun key hkey => nomatch hkey
    | true => exact fun key _ => hcontent rfl

/-! ## Downloading and deleting -/

section

variable {key : String} (hkey : pathFor key = some key)

include hkey

/-- Undisturbed, a download answers what there is. -/
theorem endures_get (bytes content : List UInt8) :
    Endures (blob key) Eq
      (fun answer _ => answer = .blob (some (contentTypeOf (some content), bytes)))
      (MediaCall.get key).prog (some bytes, some content) := by
  apply Endures.map
  rw [FsMediaStore.get, hkey]
  intro d hd
  have hbytes : d.files key = some bytes := (congrArg Prod.fst hd).symm
  dsimp only
  rw [hbytes]
  intro d' hd'
  have hcontent : d'.files (contentTypeFile key) = some content :=
    (congrArg Prod.snd (hd.trans hd')).symm
  dsimp only
  rw [hcontent]
  rfl

/-- A blob that is gone stays gone. -/
theorem endures_get_none :
    Endures (blob key) Fades (fun answer _ => answer = .blob none) (MediaCall.get key).prog
      (none, none) := by
  apply Endures.map
  rw [FsMediaStore.get, hkey]
  intro d hd
  have hbytes : d.files key = none := congrArg Prod.fst hd.of_none
  dsimp only
  rw [hbytes]
  rfl

/-- While others at most remove it, a deletion leaves nothing of a blob. -/
theorem endures_delete (l : Option (List UInt8) × Option (List UInt8)) :
    Endures (blob key) Fades (fun _ m => m = (none, none)) (MediaCall.delete key).prog l := by
  apply Endures.map
  rw [delete, hkey]
  intro d _ d' hd'
  have hbytes : (blob key { d with files := Function.update d.files key none }).1 = none :=
    Function.update_self ..
  have hgone : d'.files key = none := by
    rcases hd'.1 with hsame | hnone
    · exact hsame.trans hbytes
    · exact hnone
  apply Prod.ext
  · show Function.update d'.files (contentTypeFile key) none key = none
    rw [Function.update_apply, hgone, ite_self]
  · exact Function.update_self ..

end

/-! ## All calls side by side -/

/-- No other upload of the run mints the key. -/
def MintedOnce (calls : List MediaCall) (key : String) (i : Nat) : Prop :=
  ∀ j digests contentType bytes, calls[j]? = some (.put digests contentType bytes) →
    mintKey digests = key → j = i

/-- The calls, as far as the schedule has come. -/
def mediaRun (calls : List MediaCall) (d : MediaDir) (is : List Nat) :
    List (Prog MediaDir MediaAnswer) × MediaDir :=
  Prog.schedule is (calls.map MediaCall.prog, d)

section

variable {calls : List MediaCall} {d : MediaDir} {key : String} {i : Nat}

theorem mediaRun_append (is js : List Nat) :
    mediaRun calls d (is ++ js) = Prog.schedule js (mediaRun calls d is) :=
  schedule_append is js _

/-- A call that has not moved is still to be made. -/
theorem getElem?_mediaRun {is : List Nat} {j : Nat} {call : MediaCall} (hj : j ∉ is)
    (hcall : calls[j]? = some call) : (mediaRun calls d is).1[j]? = some call.prog := by
  rw [mediaRun, getElem?_schedule_of_notMem hj, List.getElem?_map, hcall]
  rfl

/-- What is left of each call but the upload can at most remove the blob, and touches it in
deletions only. -/
theorem guarantees_mediaRun (hkey : ∀ c ∈ key.toList, isHexDigit c = true)
    (hminted : MintedOnce calls key i) (is : List Nat) {j : Nat} (hj : j ≠ i)
    {p : Prog MediaDir MediaAnswer} (hp : (mediaRun calls d is).1[j]? = some p) :
    p.Guarantees (fun s t => Fades (blob key s) (blob key t)) ∧
      (calls[j]? ≠ some (.delete key) → p.Guarantees (fun s t => blob key s = blob key t)) := by
  have hput : ∀ m, m ≠ i → ∀ digests contentType bytes,
      calls[m]? = some (.put digests contentType bytes) → mintKey digests ≠ key :=
    fun m hm digests contentType bytes hcall heq => hm (hminted m digests contentType bytes hcall heq)
  have hstart : ∀ (m : Nat) (q : Prog MediaDir MediaAnswer),
      (calls.map MediaCall.prog)[m]? = some q → ∃ call, calls[m]? = some call ∧ q = call.prog := by
    intro m q hq
    rw [List.getElem?_map] at hq
    obtain ⟨call, hcall, hprog⟩ := Option.map_eq_some_iff.1 hq
    exact ⟨call, hcall, hprog.symm⟩
  constructor
  · have heach := guarantees_schedule_each
      (G := fun m s t => m ≠ i → Fades (blob key s) (blob key t))
      (c := (calls.map MediaCall.prog, d)) ?_ is j p hp
    · exact heach.mono (fun s t h => h hj)
    · intro m q hq
      obtain ⟨call, hcall, rfl⟩ := hstart m q hq
      by_cases hm : m = i
      · exact guarantees_of_forall (fun s t hne => absurd hm hne) _
      · have hfades := guarantees_prog_fades hkey
          (fun digests contentType bytes heq => hput m hm digests contentType bytes (heq ▸ hcall))
        exact hfades.mono (fun s t h _ => h)
  · intro hdelete
    have heach := guarantees_schedule_each
      (G := fun m s t => m ≠ i → calls[m]? ≠ some (.delete key) → blob key s = blob key t)
      (c := (calls.map MediaCall.prog, d)) ?_ is j p hp
    · exact heach.mono (fun s t h => h hj hdelete)
    · intro m q hq
      obtain ⟨call, hcall, rfl⟩ := hstart m q hq
      by_cases hm : m = i ∨ call = .delete key
      · apply guarantees_of_forall
        intro s t hne hother
        rcases hm with hm | rfl
        · exact absurd hm hne
        · exact absurd hcall hother
      · rw [not_or] at hm
        have hspares := guarantees_prog hkey
          (fun digests contentType bytes heq => hput m hm.1 digests contentType bytes (heq ▸ hcall))
          hm.2
        exact hspares.mono (fun s t h _ _ => h)

variable {digests : BytesOf 16} {contentType : String} {bytes : List UInt8} {before : List Nat}
  (hput : calls[i]? = some (.put digests contentType bytes))
  (hminted : MintedOnce calls (mintKey digests) i)
  (hstored : (mediaRun calls d before).1[i]? = some (.ret (.key (some (mintKey digests)))))

include hminted hstored

/-- Once its upload has answered, all that is left can at most remove a blob. -/
theorem guarantees_of_stored (mid : List Nat) {j : Nat} {p : Prog MediaDir MediaAnswer}
    (hp : (mediaRun calls d (before ++ mid)).1[j]? = some p) :
    p.Guarantees
        (fun s t => Fades (blob (mintKey digests) s) (blob (mintKey digests) t)) ∧
      (calls[j]? ≠ some (.delete (mintKey digests)) →
        p.Guarantees (fun s t => blob (mintKey digests) s = blob (mintKey digests) t)) := by
  by_cases hj : j = i
  · subst hj
    rw [mediaRun_append, getElem?_schedule_of_ret mid hstored] at hp
    rw [← Option.some.inj hp]
    exact ⟨trivial, fun _ => trivial⟩
  · exact guarantees_mediaRun (isHexDigit_toHex digests.1) hminted (before ++ mid) hj hp

include hput

/-- With no deletion on the way, the blob is there whole. -/
theorem blob_of_stored (hspared : ∀ m ∈ before, calls[m]? ≠ some (.delete (mintKey digests))) :
    blob (mintKey digests) (mediaRun calls d before).2 =
      (some bytes, some (asBytes contentType)) := by
  have hothers : ∀ j ∈ before, j ≠ i → ∀ q, (mediaRun calls d []).1[j]? = some q →
      q.Guarantees (fun s t => blob (mintKey digests) s = blob (mintKey digests) t) :=
    fun j hj hne q hq =>
      (guarantees_mediaRun (isHexDigit_toHex digests.1) hminted [] hne hq).2 (hspared j hj)
  have hfirst : (mediaRun calls d []).1[i]? = some (MediaCall.put digests contentType bytes).prog :=
    getElem?_mediaRun List.not_mem_nil hput
  have hbytes : file (mintKey digests) (mediaRun calls d before).2 = some bytes := by
    apply Endures.answer (fun _ => rfl) (fun _ _ _ => Eq.trans) (fun _ _ _ h heq => heq ▸ h) _ hfirst
      (endures_put_bytes digests contentType bytes _) hstored _ rfl
    intro j hj hne q hq
    exact (hothers j hj hne q hq).mono (fun _ _ h => congrArg Prod.fst h)
  have htype : file (contentTypeFile (mintKey digests)) (mediaRun calls d before).2 =
      some (asBytes contentType) := by
    apply Endures.answer (fun _ => rfl) (fun _ _ _ => Eq.trans) (fun _ _ _ h heq => heq ▸ h) _ hfirst
      (endures_put_contentType digests contentType bytes _) hstored _ rfl
    intro j hj hne q hq
    exact (hothers j hj hne q hq).mono (fun _ _ h => congrArg Prod.snd h)
  exact Prod.ext hbytes htype

theorem get_of_stored {mid : List Nat}
    (hspared : ∀ m ∈ before ++ mid, calls[m]? ≠ some (.delete (mintKey digests))) {j : Nat}
    (hget : calls[j]? = some (.get (mintKey digests))) (hlate : j ∉ before) {answer : MediaAnswer}
    (hanswer : (mediaRun calls d (before ++ mid)).1[j]? = some (.ret answer)) :
    answer = .blob (some (trim contentType, bytes)) := by
  have hblob := blob_of_stored hput hminted hstored
    (fun m hm => hspared m (List.mem_append_left mid hm))
  have hread := endures_get (pathFor_mintKey digests) bytes (asBytes contentType)
  rw [← hblob] at hread
  rw [mediaRun_append] at hanswer
  have htold : answer = .blob (some (contentTypeOf (some (asBytes contentType)), bytes)) := by
    apply Endures.answer (fun _ => rfl) (fun _ _ _ => Eq.trans) (fun _ _ _ h _ => h) _
      (getElem?_mediaRun hlate hget) hread hanswer
    intro m hm _ q hq
    rw [← List.append_nil before] at hq
    exact (guarantees_of_stored hminted hstored [] hq).2 (hspared m (List.mem_append_right before hm))
  rw [htold, contentTypeOf, Option.bind_some, fromUtf8_asBytes]
  rfl

omit hput in
theorem get_of_deleted {mid after : List Nat} {m j : Nat}
    (hdelete : calls[m]? = some (.delete (mintKey digests))) (hlate : m ∉ before)
    {answer : MediaAnswer}
    (hdeleted : (mediaRun calls d (before ++ mid)).1[m]? = some (.ret answer))
    (hget : calls[j]? = some (.get (mintKey digests))) (hlater : j ∉ before ++ mid)
    {answer' : MediaAnswer}
    (hanswer : (mediaRun calls d (before ++ mid ++ after)).1[j]? = some (.ret answer')) :
    answer' = .blob none := by
  have hgone : blob (mintKey digests) (mediaRun calls d (before ++ mid)).2 = (none, none) := by
    rw [mediaRun_append] at hdeleted ⊢
    apply Endures.answer Fades.refl Fades.trans _ _ (getElem?_mediaRun hlate hdelete)
      (endures_delete (pathFor_mintKey digests) _) hdeleted
    · intro _ l l' hl hfades
      rw [hl] at hfades
      exact hfades.of_none
    · intro k _ _ q hq
      rw [← List.append_nil before] at hq
      exact (guarantees_of_stored hminted hstored [] hq).1
  have hread := endures_get_none (pathFor_mintKey digests)
  rw [← hgone] at hread
  rw [mediaRun_append] at hanswer
  apply Endures.answer Fades.refl Fades.trans (fun _ _ _ h _ => h) _
    (getElem?_mediaRun hlater hget) hread hanswer
  intro k _ _ q hq
  exact (guarantees_of_stored hminted hstored mid hq).1

end

/-- An upload that has answered is served whole until a deletion of its key begins, and once such
a deletion has ended nothing of it is served, whatever else runs on the directory. -/
theorem blob_served_until_deleted {calls : List MediaCall} {d : MediaDir} {i : Nat}
    {digests : BytesOf 16} {contentType : String} {bytes : List UInt8} {before : List Nat}
    (hput : calls[i]? = some (.put digests contentType bytes))
    (hminted : MintedOnce calls (mintKey digests) i)
    (hstored : (mediaRun calls d before).1[i]? =
      some (.ret (.key (some (mintKey digests))))) :
    (∀ mid j answer, (∀ m ∈ before ++ mid, calls[m]? ≠ some (.delete (mintKey digests))) →
      calls[j]? = some (.get (mintKey digests)) → j ∉ before →
      (mediaRun calls d (before ++ mid)).1[j]? = some (.ret answer) →
      answer = .blob (some (trim contentType, bytes))) ∧
    ∀ mid after m j answer answer', calls[m]? = some (.delete (mintKey digests)) → m ∉ before →
      (mediaRun calls d (before ++ mid)).1[m]? = some (.ret answer) →
      calls[j]? = some (.get (mintKey digests)) → j ∉ before ++ mid →
      (mediaRun calls d (before ++ mid ++ after)).1[j]? = some (.ret answer') →
      answer' = .blob none := by
  constructor
  · intro mid j answer hspared hget hlate hanswer
    exact get_of_stored hput hminted hstored hspared hget hlate hanswer
  · intro mid after m j answer answer' hdelete hlate hdeleted hget hlater hanswer
    exact get_of_deleted hminted hstored hdelete hlate hdeleted hget hlater hanswer

namespace Agora

def photo : BytesOf 16 := ⟨List.replicate 16 1, rfl⟩

def shelf : MediaDir := ⟨fun _ => none, false⟩

/-- A picture is uploaded, looked at, deleted, and looked for again. -/
def photoCalls : List MediaCall :=
  [.put photo "image/png" [137, 80], .get (mintKey photo), .delete (mintKey photo),
    .get (mintKey photo)]

def uploading : List Nat := List.replicate 13 0

theorem photo_mintedOnce : MintedOnce photoCalls (mintKey photo) 0 := by
  intro j digests contentType bytes hcall _
  match j with
  | 0 => rfl
  | 1 | 2 | 3 => cases hcall
  | _ + 4 => cases hcall

/-- In the second schedule the first download runs while the picture is deleted. -/
theorem photo_served_until_deleted :
    (∃ answer, (mediaRun photoCalls shelf (uploading ++ [1, 1])).1[1]? = some (.ret answer) ∧
      answer = .blob (some ("image/png", [137, 80]))) ∧
    ∃ answer, (mediaRun photoCalls shelf (uploading ++ [2, 1, 2, 1] ++ [3])).1[3]? =
      some (.ret answer) ∧ answer = .blob none := by
  have hput : photoCalls[0]? = some (.put photo "image/png" [137, 80]) := rfl
  have hstored : (mediaRun photoCalls shelf uploading).1[0]? =
      some (.ret (.key (some (mintKey photo)))) := rfl
  obtain ⟨hserved, hgone⟩ := blob_served_until_deleted hput photo_mintedOnce hstored
  constructor
  · refine ⟨_, rfl, ?_⟩
    exact hserved [1, 1] 1 _ (by decide) rfl (by decide) rfl
  · refine ⟨_, rfl, ?_⟩
    exact hgone [2, 1, 2, 1] [3] 2 3 .done _ rfl (by decide) rfl rfl (by decide) rfl

end Agora

end Democrachat
