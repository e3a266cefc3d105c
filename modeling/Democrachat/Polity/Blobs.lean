import Democrachat.Polity.Posting
import Democrachat.Polity.Turns

/-!
# What is written of blobs

A blob comes with an upload, under a key of the store's making, and goes with the deletion
of a message that has the key attached.
-/

namespace Democrachat

open Library Req

/-- The essence of a content type: without parameters, in lower case. -/
def mediaBase (contentType : String) : String :=
  toAsciiLowercase (trim (beforeFirst ';' contentType))

/-- The checks of `storeMedia`. -/
def isStorable (contentType : String) (bytes : List UInt8) : Bool :=
  !bytes.isEmpty && decide (bytes.length ≤ maxMediaBytes) &&
    mediaBase contentType != "image/svg+xml" &&
      (MediaKind.fromContentType (mediaBase contentType)).isSome

/-- The key that the next upload gets. -/
def World.nextKey (w : World) (nanos : Nat) : String :=
  Inner.hex nanos ++ Inner.hex (w.store.mediaSeq + 1)

def Message.attaches (m : Message) (key : String) : Bool := m.attachments.any (·.key == key)

theorem exec_storeMedia (w : World) (nanos : Nat) (contentType : String) (bytes : List UInt8) :
    ((storeMedia nanos contentType bytes).exec w).2 =
      if isStorable contentType bytes then
        w.mapStore (fun s => (s.putMedia nanos (mediaBase contentType) bytes).2)
      else w := by
  have hbase : toAsciiLowercase (trim (beforeFirst ';' contentType)) = mediaBase contentType := rfl
  simp only [storeMedia, hbase, req_transact_bind, exec_ensure_bind, exec_okOr_bind, exec_pure]
  by_cases hbytes : bytes.isEmpty = true
  · simp [isStorable, hbytes]
  by_cases hsize : bytes.length ≤ maxMediaBytes
  swap
  · simp [isStorable, hbytes, hsize]
  by_cases hsvg : mediaBase contentType = "image/svg+xml"
  · simp [isStorable, hbytes, hsize, hsvg]
  cases hkind : MediaKind.fromContentType (mediaBase contentType) with
  | none => simp [isStorable, hbytes, hsize, hsvg, hkind]
  | some kind => simp [isStorable, hbytes, hsize, hsvg, hkind]

theorem World.dropBlobs_cons (w : World) (a : Attachment) (as : List Attachment) :
    w.dropBlobs (a :: as) = (w.mapStore (·.deleteMedia a.key)).dropBlobs as := rfl

theorem World.dropBlobs_getMedia (w : World) (as : List Attachment) (key : String) :
    (w.dropBlobs as).store.getMedia key =
      if as.any (·.key == key) then none else w.store.getMedia key := by
  induction as generalizing w with
  | nil => rfl
  | cons a as ih =>
    have herase : (w.mapStore (·.deleteMedia a.key)).store.getMedia key =
        if key = a.key then none else w.store.getMedia key :=
      Table.get_erase w.store.media key a.key
    rw [dropBlobs_cons, ih, herase, List.any_cons]
    by_cases hkey : key = a.key
    · simp [hkey]
    · simp [hkey, Ne.symm hkey]

/-- What becomes of the blob under one key. -/
inductive Media (w w' : World) (key : String) : UseCase → Prop
  | same {u : UseCase} : w'.store.getMedia key = w.store.getMedia key → Media w w' key u
  | stored {nanos : Nat} {contentType : String} {bytes : List UInt8} :
      isStorable contentType bytes = true → key = w.nextKey nanos →
      w'.store.getMedia key = some ⟨key, mediaBase contentType, bytes⟩ →
      Media w w' key (.op (.storeMedia nanos contentType bytes))
  | dropped {handle : String} {messageId : MessageId} {m : Message} :
      Authors w handle messageId m → m.attaches key = true → w'.store.getMedia key = none →
      Media w w' key (.op (.deleteMessage handle messageId))

theorem getMedia_of_deleted (services : Services) {w : World} {handle : String}
    {messageId : MessageId} {m : Message} (h : Authors w handle messageId m) (key : String) :
    (services.serve w (.op (.deleteMessage handle messageId))).store.getMedia key =
      if m.attaches key then none else w.store.getMedia key := by
  rw [Services.serve, Services.step, exec_deleteMessage h]
  exact w.dropBlobs_getMedia m.attachments key

theorem getMedia_of_stored (services : Services) (w : World) (nanos : Nat) {contentType : String}
    {bytes : List UInt8} (h : isStorable contentType bytes = true) :
    (services.serve w (.op (.storeMedia nanos contentType bytes))).store.getMedia
      (w.nextKey nanos) = some ⟨w.nextKey nanos, mediaBase contentType, bytes⟩ := by
  rw [Services.serve, Services.step, exec_storeMedia, if_pos h]
  exact Table.get_insert_self w.store.media ⟨w.nextKey nanos, mediaBase contentType, bytes⟩

theorem Services.media (services : Services) (w : World) (u : UseCase) (key : String) :
    Media w (services.serve w u) key u := by
  by_cases hparts : u.parts.contains .media = false
  · exact .same (congrArg (Table.get · key) ((spares_serve services w u).media hparts))
  cases u with
  | op op =>
    cases op with
    | storeMedia nanos contentType bytes =>
      by_cases hstorable : isStorable contentType bytes = true
      · by_cases hkey : key = w.nextKey nanos
        · subst hkey
          exact .stored hstorable rfl (getMedia_of_stored services w nanos hstorable)
        · rw [Services.serve, Services.step, exec_storeMedia, if_pos hstorable]
          exact .same (Table.get_insert_of_ne w.store.media hkey)
      · rw [Services.serve, Services.step, exec_storeMedia, if_neg hstorable]
        exact .same rfl
    | deleteMessage handle messageId =>
      rcases deleteMessage_cases w handle messageId with ⟨e, herror⟩ | ⟨m, hauthors⟩
      · rw [Services.serve, Services.step, herror]
        exact .same rfl
      · have hget := getMedia_of_deleted services hauthors key
        split at hget
        next hattaches => exact .dropped hauthors hattaches hget
        next => exact .same hget
    | _ => exact absurd rfl hparts
  | _ => exact absurd rfl hparts

end Democrachat
