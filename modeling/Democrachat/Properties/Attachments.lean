import Democrachat.Polity.Blobs

/-!
# Attachments

Nothing counts the messages that a blob is attached to: a deletion takes the blob from all
of them, and the removal of a channel leaves it behind.
-/

namespace Democrachat

open Library

/-- A message that is not deleted has the key attached. -/
def World.Holds (w : World) (m : Message) (key : String) : Prop :=
  w.store.getMessage m.id = some m ∧ m.isDeleted = false ∧ m.attaches key = true

instance (w : World) (m : Message) (key : String) : Decidable (w.Holds m key) :=
  inferInstanceAs (Decidable (_ ∧ _ ∧ _))

def World.Refers (w : World) (key : String) : Prop := ∃ m, w.Holds m key

/-- The upload stores the blob. -/
def UseCase.Stores (w : World) (u : UseCase) (blob : Blob) : Prop :=
  ∃ nanos contentType bytes, u = .op (.storeMedia nanos contentType bytes) ∧
    isStorable contentType bytes = true ∧
    blob = ⟨w.nextKey nanos, mediaBase contentType, bytes⟩

/-- The message came with the run, and the attached key resolved to the blob. -/
def Resolved (services : Services) (start : World) (done : List UseCase) (id : MessageId)
    (blob : Blob) : Prop :=
  ∃ pre u later m, done = pre ++ u :: later ∧
    (services.serveAll start pre).store.getMessage id = none ∧
    (services.serveAll start (pre ++ [u])).store.getMessage id = some m ∧
    m.attaches blob.key = true ∧
    (services.serveAll start (pre ++ [u])).store.getMedia blob.key = some blob

/-- What a message has attached lives as long as the message. -/
def BlobsStay (services : Services) (start : World) (us : List UseCase) : Prop :=
  ∀ done rest, us = done ++ rest → ∀ m blob, Resolved services start done m.id blob →
    (services.serveAll start done).Holds m blob.key →
      (services.serveAll start done).store.getMedia blob.key = some blob

/-- A blob that a message had attached goes when no message has it attached any more. -/
def BlobsGo (services : Services) (start : World) (us : List UseCase) : Prop :=
  ∀ done later rest, us = done ++ later ++ rest → ∀ blob,
    (services.serveAll start done).store.getMedia blob.key = some blob →
    (services.serveAll start done).Refers blob.key →
    Along services.serve (fun w u => ∀ blob', u.Stores w blob' → blob'.key ≠ blob.key)
      (services.serveAll start done) later →
    ¬ (services.serveAll start (done ++ later)).Refers blob.key →
      (services.serveAll start (done ++ later)).store.getMedia blob.key = none

/-! ## What goes wrong -/

/-- The request deletes another message that has the key attached, or stores another blob
under it. -/
def UseCase.Disturbs (w : World) (u : UseCase) (m : Message) (blob : Blob) : Prop :=
  (∃ handle m', u = .op (.deleteMessage handle m'.id) ∧ Authors w handle m'.id m' ∧
    m'.id ≠ m.id ∧ m'.attaches blob.key = true) ∨
  ∃ blob', u.Stores w blob' ∧ blob'.key = blob.key ∧ blob' ≠ blob

/-- The sweep removes the channels of all messages that have a stored blob attached. -/
def UseCase.Strands (w : World) (u : UseCase) (blob : Blob) : Prop :=
  ∃ op serverSlug, u = .op op ∧ op.sweeps = some serverSlug ∧
    w.store.getMedia blob.key = some blob ∧ w.Refers blob.key ∧
    ∀ m, w.Holds m blob.key →
      ∃ t ∈ w.polity.resolveTurns serverSlug, ∃ x, t.closes = some x ∧ x.id = m.channelId

/-- No blob is taken from a message that has it attached, and none is left behind. -/
def BlobsKept (services : Services) (start : World) (us : List UseCase) : Prop :=
  ∀ pre u post, us = pre ++ u :: post →
    (∀ m blob, Resolved services start pre m.id blob →
      (services.serveAll start pre).Holds m blob.key →
        ¬ u.Disturbs (services.serveAll start pre) m blob) ∧
    ∀ blob, ¬ u.Strands (services.serveAll start pre) blob

section Steps

variable {services : Services} {w : World}

/-- What holds the key after a sweep is what held it before in a channel that stays. -/
theorem holds_swept {op : Op} {serverSlug : String} (h : op.sweeps = some serverSlug) {m : Message}
    {key : String} : (services.serve w (.op op)).Holds m key ↔ w.Holds m key ∧
      ∀ t ∈ w.polity.resolveTurns serverSlug, ∀ x, t.closes = some x → x.id ≠ m.channelId := by
  have hmessages := mem_resolveDue_messages (c := w.polity) (m := m) serverSlug
  rw [← polity_sweeps services h] at hmessages
  have hstored : (services.serve w (.op op)).store.getMessage m.id = some m ↔
      w.store.getMessage m.id = some m ∧
      ∀ t ∈ w.polity.resolveTurns serverSlug, ∀ x, t.closes = some x → x.id ≠ m.channelId :=
    Table.mem_iff.symm.trans (hmessages.trans (and_congr_left' Table.mem_iff))
  rw [World.Holds, World.Holds, hstored, and_right_comm]

/-- A message that holds a key has held it since it came. -/
theorem held_before (hw : services.Served w) {u : UseCase} {m : Message} {key : String}
    (hminted : Minted w.store.node w.store.nextMessage m.id)
    (h : (services.serve w u).Holds m key) : ∃ m', w.Holds m' key ∧ m'.id = m.id := by
  obtain ⟨hm, hlive, hattaches⟩ := h
  have hfate := hw.fate u m.id
  generalize services.serve w u = w' at hfate hm
  cases hfate with
  | same hget => exact ⟨m, ⟨hget.symm.trans hm, hlive, hattaches⟩, rfl⟩
  | plain _ _ hid => exact absurd hid hminted.ne_composeId
  | sealed_ _ _ hid => exact absurd hid hminted.ne_composeId
  | @edited _ _ m' hauthors _ hget =>
    obtain rfl := Option.some.inj (hget.symm.trans hm)
    exact ⟨m', ⟨hauthors.found, hlive, hattaches⟩, rfl⟩
  | deleted _ hget =>
    obtain rfl := Option.some.inj (hget.symm.trans hm)
    cases hlive
  | lost _ _ hget _ => cases hget.symm.trans hm

/-- Undisturbed, the blob stays with the message. -/
theorem getMedia_serve (hw : services.Served w) {u : UseCase} {m : Message} {blob : Blob}
    (hminted : Minted w.store.node w.store.nextMessage m.id)
    (hafter : (services.serve w u).Holds m blob.key)
    (hstays : ∀ m', w.Holds m' blob.key → m'.id = m.id →
      w.store.getMedia blob.key = some blob ∧ ¬ u.Disturbs w m' blob) :
    (services.serve w u).store.getMedia blob.key = some blob := by
  obtain ⟨m', hholds, hid⟩ := held_before hw hminted hafter
  obtain ⟨hget, hundisturbed⟩ := hstays m' hholds hid
  have hmedia := services.media w u blob.key
  generalize hafterw : services.serve w u = w' at hmedia hafter ⊢
  cases hmedia with
  | same hsame => exact hsame.trans hget
  | @stored nanos contentType bytes hstorable hkey hstored =>
    by_cases hblob : (⟨blob.key, mediaBase contentType, bytes⟩ : Blob) = blob
    · rw [hblob] at hstored
      exact hstored
    · refine absurd (.inr ⟨_, ⟨nanos, contentType, bytes, rfl, hstorable, rfl⟩, hkey.symm, ?_⟩)
        hundisturbed
      rw [← hkey]
      exact hblob
  | @dropped handle messageId m'' hauthors hattaches _ =>
    obtain rfl := hauthors.id
    by_cases hsame : m''.id = m'.id
    · -- The message's own deletion leaves its tombstone.
      have hdeleted := serve_delete services hauthors m.id
      rw [if_pos (hid.symm.trans hsame.symm), hafterw] at hdeleted
      obtain rfl := Option.some.inj (hdeleted.symm.trans hafter.1)
      cases hafter.2.1
    · exact absurd (.inl ⟨handle, m'', rfl, hauthors, hsame, hattaches⟩) hundisturbed

/-- A blob that is not stranded stays referred to, or goes. -/
theorem refers_serve (hw : services.Served w) {u : UseCase} {blob : Blob}
    (hget : w.store.getMedia blob.key = some blob) (hrefers : w.Refers blob.key)
    (hkept : ¬ u.Strands w blob) :
    (services.serve w u).Refers blob.key ∨
      (services.serve w u).store.getMedia blob.key = none := by
  by_cases hsweep : ∃ op serverSlug, u = .op op ∧ op.sweeps = some serverSlug
  · obtain ⟨op, serverSlug, rfl, hsweeps⟩ := hsweep
    refine .inl ?_
    by_contra hgone
    refine hkept ⟨op, serverSlug, rfl, hsweeps, hget, hrefers, fun m hholds => ?_⟩
    by_contra hstays
    refine hgone ⟨m, (holds_swept hsweeps).2 ⟨hholds, fun t ht x hx hid => ?_⟩⟩
    exact hstays ⟨t, ht, x, hx, hid⟩
  obtain ⟨m, hm, hlive, hattaches⟩ := hrefers
  have hfate := hw.fate u m.id
  generalize hafter : services.serve w u = w' at hfate ⊢
  cases hfate with
  | same hsame => exact .inl ⟨m, hsame.trans hm, hlive, hattaches⟩
  | plain _ _ _ hfree _ => cases hfree.symm.trans hm
  | sealed_ _ _ _ hfree _ => cases hfree.symm.trans hm
  | @edited _ body m' hauthors _ hedited =>
    obtain rfl := Option.some.inj (hauthors.found.symm.trans hm)
    exact .inl ⟨m'.edit (trim body) w.now, hedited, hlive, hattaches⟩
  | @deleted handle m' hauthors _ =>
    obtain rfl := Option.some.inj (hauthors.found.symm.trans hm)
    have hdropped := getMedia_of_deleted services hauthors blob.key
    rw [if_pos hattaches, hafter] at hdropped
    exact .inr hdropped
  | lost hgoverned _ _ _ =>
    obtain ⟨serverSlug, hsweeps⟩ := sweeps_of_governed hgoverned
    exact absurd ⟨_, serverSlug, rfl, hsweeps⟩ hsweep

/-- The blob is stored and referred to, or nothing is stored under its key. -/
def World.Reclaims (w : World) (blob : Blob) : Prop :=
  w.store.getMedia blob.key = some blob ∧ w.Refers blob.key ∨ w.store.getMedia blob.key = none

theorem World.Reclaims.serve (hw : services.Served w) {u : UseCase} {blob : Blob}
    (h : w.Reclaims blob) (hfresh : ∀ blob', u.Stores w blob' → blob'.key ≠ blob.key)
    (hkept : ¬ u.Strands w blob) : (services.serve w u).Reclaims blob := by
  have hmedia := services.media w u blob.key
  have hrefers : w.store.getMedia blob.key = some blob → w.Refers blob.key → _ :=
    fun hget hthen => refers_serve hw hget hthen hkept
  generalize services.serve w u = w' at hmedia hrefers ⊢
  cases hmedia with
  | same hsame =>
    rcases h with ⟨hget, hthen⟩ | hnone
    · exact (hrefers hget hthen).imp (fun hnow => ⟨hsame.trans hget, hnow⟩) id
    · exact .inr (hsame.trans hnone)
  | @stored nanos contentType bytes hstorable hkey _ =>
    exact absurd hkey.symm (hfresh _ ⟨nanos, contentType, bytes, rfl, hstorable, rfl⟩)
  | dropped _ _ hnone => exact .inr hnone

end Steps

/-! ## Whole runs -/

section Runs

variable (services : Services) (node : NodeId) (now : Timestamp)

theorem minted_serveAll {w : World} {id : MessageId}
    (h : Minted w.store.node w.store.nextMessage id) (us : List UseCase) :
    Minted (services.serveAll w us).store.node (services.serveAll w us).store.nextMessage id := by
  induction us generalizing w with
  | nil => exact h
  | cons u us ih => exact ih (minted_serve services h u)

theorem Resolved.concat {start : World} {done : List UseCase} {id : MessageId} {blob : Blob}
    (h : Resolved services start done id blob) (u : UseCase) :
    Resolved services start (done ++ [u]) id blob := by
  obtain ⟨pre, v, later, m, rfl, hnew, hm, hattaches, hget⟩ := h
  exact ⟨pre, v, later ++ [u], m, by simp, hnew, hm, hattaches, hget⟩

theorem blobsStay_of_kept {us : List UseCase} (hkept : BlobsKept services (.empty node now) us) :
    BlobsStay services (.empty node now) us := by
  rintro done rest hus m blob ⟨pre, v, later, m', rfl, hnew, hm', hattaches, hget⟩ hholds
  generalize hid : m.id = id at hnew hm'
  induction later using List.reverseRecOn generalizing m rest with
  | nil => exact hget
  | append_singleton later u ih =>
    have hserved : services.Served (services.serveAll (.empty node now) (pre ++ v :: later)) :=
      ⟨node, now, _, rfl⟩
    have hminted : Minted (services.serveAll (.empty node now) (pre ++ v :: later)).store.node
        (services.serveAll (.empty node now) (pre ++ v :: later)).store.nextMessage id := by
      have hthen : services.Served (services.serveAll (.empty node now) (pre ++ [v])) :=
        ⟨node, now, _, rfl⟩
      have hfirst := hthen.messagesMinted m' (Table.mem_of_get hm')
      rw [show m'.id = id from Table.key_of_get hm'] at hfirst
      have hsplit : pre ++ v :: later = (pre ++ [v]) ++ later := by simp
      rw [hsplit, services.serveAll_append]
      exact minted_serveAll services hfirst later
    have hlast : pre ++ v :: (later ++ [u]) = (pre ++ v :: later) ++ [u] := by simp
    rw [hlast] at hus
    rw [hlast, services.serveAll_concat] at hholds ⊢
    refine getMedia_serve hserved (hid.symm ▸ hminted) hholds (fun m'' hholds' hid' => ⟨?_, ?_⟩)
    · exact ih (u :: rest) m'' (by simpa using hus) hholds' (hid'.trans hid)
    · refine (hkept _ u rest (by simpa using hus)).1 m'' blob ?_ hholds'
      rw [hid'.trans hid]
      exact ⟨pre, v, later, m', rfl, hnew, hm', hattaches, hget⟩

theorem blobsGo_of_kept {us : List UseCase} (hkept : BlobsKept services (.empty node now) us) :
    BlobsGo services (.empty node now) us := by
  rintro done later rest hus blob hget hrefers hfresh hgone
  have hreclaims : (services.serveAll (.empty node now) (done ++ later)).Reclaims blob := by
    clear hgone
    induction later using List.reverseRecOn generalizing rest with
    | nil =>
      rw [List.append_nil]
      exact .inl ⟨hget, hrefers⟩
    | append_singleton later u ih =>
      obtain ⟨hearlier, hnow, -⟩ := along_append.1 hfresh
      have hserved : services.Served (services.serveAll (.empty node now) (done ++ later)) :=
        ⟨node, now, _, rfl⟩
      have hbefore := ih (u :: rest) (by simpa using hus) hearlier
      have hstrands := (hkept (done ++ later) u rest (by simpa using hus)).2 blob
      rw [Services.serveAll, ← List.foldl_append] at hnow
      rw [← List.append_assoc, services.serveAll_concat]
      exact hbefore.serve hserved hnow hstrands
  exact hreclaims.resolve_left (fun h => hgone h.2)

theorem blobsKept_of_stay {us : List UseCase} (hstay : BlobsStay services (.empty node now) us)
    (hgo : BlobsGo services (.empty node now) us) : BlobsKept services (.empty node now) us := by
  rintro pre u post rfl
  have hsplit : pre ++ u :: post = (pre ++ [u]) ++ post := by simp
  refine ⟨fun m blob hresolved hholds hdisturbs => ?_, fun blob hstrands => ?_⟩
  · have hkept := hstay (pre ++ [u]) post hsplit m blob (hresolved.concat services u)
    rw [services.serveAll_concat] at hkept
    rcases hdisturbs with ⟨handle, m', rfl, hauthors, hother, hattaches⟩ |
      ⟨blob', ⟨nanos, contentType, bytes, rfl, hstorable, rfl⟩, hkey, hblob⟩
    · have hstands := serve_delete services hauthors m.id
      rw [if_neg (Ne.symm hother)] at hstands
      have hdropped := getMedia_of_deleted services hauthors blob.key
      rw [if_pos hattaches] at hdropped
      cases hdropped.symm.trans (hkept ⟨hstands.trans hholds.1, hholds.2⟩)
    · have hmessages := (spares_serve services (services.serveAll (.empty node now) pre)
        (.op (.storeMedia nanos contentType bytes))).messages rfl rfl
      have hstored := getMedia_of_stored services (services.serveAll (.empty node now) pre)
        nanos hstorable
      have hstands := hkept ⟨(congrArg (Table.get · m.id) hmessages).trans hholds.1, hholds.2⟩
      rw [← hkey] at hstands
      exact hblob (Option.some.inj (hstored.symm.trans hstands))
  · obtain ⟨op, serverSlug, rfl, hsweeps, hget, hrefers, hcloses⟩ := hstrands
    have hmedia := (spares_serve services (services.serveAll (.empty node now) pre) (.op op)).media
      (by rw [UseCase.parts, governed_of_sweeps hsweeps]; rfl)
    have hgone := hgo pre [.op op] post (by simp) blob hget hrefers
      ⟨fun _ ⟨_, _, _, hstore, _⟩ => absurd hsweeps (by cases hstore; nofun), trivial⟩
    rw [services.serveAll_concat] at hgone
    have hnone := hgone (fun ⟨m, hholds⟩ => by
      obtain ⟨hthen, hstays⟩ := (holds_swept hsweeps).1 hholds
      obtain ⟨t, ht, x, hx, hid⟩ := hcloses m hthen
      exact hstays t ht x hx hid)
    cases (hnone.symm.trans (congrArg (Table.get · blob.key) hmedia)).trans hget

/-- Blobs live and die with the messages that have them attached if, and only if, none is
taken from such a message and none is left behind. -/
theorem blobs_live_iff (us : List UseCase) :
    BlobsStay services (.empty node now) us ∧ BlobsGo services (.empty node now) us ↔
      BlobsKept services (.empty node now) us :=
  ⟨fun h => blobsKept_of_stay services node now h.1 h.2,
    fun h => ⟨blobsStay_of_kept services node now h, blobsGo_of_kept services node now h⟩⟩

end Runs

namespace Agora

def picture : Attachment := ⟨"11", "image/png", .image, "", false⟩

/-- Zed's only message, in the server's first channel. -/
def exhibit : Message :=
  { Message.new (composeId 0 1) (composeId 0 1) sid (composeId 0 1) "look" none (day 0) with
    attachments := [picture] }

/-- Zed puts a picture on the square. -/
def exhibition : List UseCase :=
  [.op (.registerAccount "zed"), .op (.foundServer "zed" "Agora" false),
    .op (.createChannel "zed" "agora" "square" ""), .op (.storeMedia 1 "image/png" [7])]

def exhibiting : UseCase :=
  .op (.postMessageWithAttachments "zed" "agora" "square" "look" [picture])

/-- Eve shows the same picture, and deletes her message. -/
def vandalism : List UseCase :=
  [.op (.registerAccount "eve"), .op (.joinServer "eve" "agora"),
    .op (.postMessageWithAttachments "eve" "agora" "square" "mine" [picture]),
    .op (.deleteMessage "eve" (composeId 0 2))]

/-- The founder votes the square away. -/
def demolition : List UseCase :=
  [.op (.openProposal "zed" "agora" (.deleteChannel "square")),
    .op (.castVote "zed" (composeId 0 1) true), .op (.setClock (day 3))]

end Agora

/-- The picture is gone from Zed's message, and it outlives the square. -/
theorem blobs_strayed :
    ¬ BlobsStay Agora.services (.empty 0 (Agora.day 0))
        (Agora.exhibition ++ Agora.exhibiting :: Agora.vandalism) ∧
      ¬ BlobsGo Agora.services (.empty 0 (Agora.day 0))
        (Agora.exhibition ++ Agora.exhibiting :: Agora.demolition ++
          [.op (.resolveDue "agora")]) := by
  constructor
  · intro hstay
    have hkept := hstay _ [] (List.append_nil _).symm Agora.exhibit ⟨"11", "image/png", [7]⟩
      ⟨Agora.exhibition, Agora.exhibiting, Agora.vandalism, Agora.exhibit, rfl, by decide +kernel,
        by decide +kernel, rfl, by decide +kernel⟩
    revert hkept
    decide +kernel
  · intro hgo
    have hempty : (Agora.services.serveAll (.empty 0 (Agora.day 0))
        (Agora.exhibition ++ Agora.exhibiting :: Agora.demolition ++
          [.op (.resolveDue "agora")])).store.messages.rows = [] := by
      decide +kernel
    have hgone := hgo (Agora.exhibition ++ Agora.exhibiting :: Agora.demolition)
      [.op (.resolveDue "agora")] [] (List.append_nil _).symm ⟨"11", "image/png", [7]⟩
      (by decide +kernel) ⟨Agora.exhibit, by decide +kernel⟩
      ⟨fun _ ⟨_, _, _, hstore, _⟩ => (nomatch hstore), trivial⟩
      (fun ⟨m, hm, _⟩ => by
        have hrow := Table.mem_of_get hm
        rw [hempty] at hrow
        cases hrow)
    revert hgone
    decide +kernel

end Democrachat
