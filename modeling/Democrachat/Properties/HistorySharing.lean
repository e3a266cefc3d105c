import Democrachat.System.Ops
import Democrachat.Web.Messages

/-!
# History sharing

What the listing of a channel hides from a viewer leaves no trace in it: neither the bodies nor
the attachments of hidden messages are read for any of the answers.
-/

namespace Democrachat

open Library

/-! ## Two states -/

/-- The channel has the message, and the viewer's listing is without it. -/
def World.Hides (w : World) (viewer slug channel : String) (m : Message) : Prop :=
  ∃ all shown, w.store.channelMessages slug channel = .ok all ∧
    w.channelMessagesFor viewer slug channel = .ok shown ∧ m ∈ all ∧ m ∉ shown

/-- The row is the same, or one of a hidden message with another body and other attachments. -/
def Message.AlikeBut (hidden : Message → Prop) (m m' : Message) : Prop :=
  m' = m ∨ (hidden m ∧ ∃ body attachments,
    m' = { m with body := body, attachments := attachments })

/-- The states differ in hidden messages, and in nothing else. -/
structure World.AlikeBut (hidden : Message → Prop) (w w' : World) : Prop where
  rest : w' = w.mapStore (fun s => { s with messages := w'.store.messages })
  rows : List.Forall₂ (Message.AlikeBut hidden) w.store.messages.rows w'.store.messages.rows

/-- Rows that pass are the same rows. -/
theorem filter_eq_of_forall₂ {hidden : Message → Prop} {p : Message → Bool}
    {ms ms' : List Message} (h : List.Forall₂ (Message.AlikeBut hidden) ms ms')
    (hhidden : ∀ m ∈ ms, hidden m → p m = false)
    (hp : ∀ m body attachments, p { m with body := body, attachments := attachments } = p m) :
    ms'.filter p = ms.filter p := by
  induction h with
  | nil => rfl
  | @cons m m' ms ms' halike _ ih =>
    have hrest := ih (fun m hm => hhidden m (List.mem_cons_of_mem _ hm))
    rcases halike with rfl | ⟨hm, body, attachments, rfl⟩
    · rw [List.filter_cons, List.filter_cons, hrest]
    · have hpasses := hhidden m List.mem_cons_self hm
      rw [List.filter_cons_of_neg (by simp [hp, hpasses]),
        List.filter_cons_of_neg (by simp [hpasses]), hrest]

/-! ## The listing -/

/-- Which messages of the channel a viewer gets to see, once the rows have been found. -/
def World.sees (w : World) (viewer : String) (server : Server) : Message → Bool :=
  let viewerId := (w.store.findByHandle (trim viewer)).map (·.id)
  w.store.isVisible server.id viewerId
    (((viewerId.bind (fun id => w.store.getMembership id server.id)).map (·.joinedAt)).getD w.now)

section Listing

variable {w : World} {viewer slug channel : String} {server : Server} {c : Channel}

theorem channelMessages_of_found (hserver : w.store.findBySlug (trim slug) = some server)
    (hchannel : w.store.findByName server.id (normalizeChannelName channel) = some c) :
    w.store.channelMessages slug channel = .ok (w.store.listForChannel c.id) := by
  simp only [Inner.channelMessages, hserver, Option.elim, bind, Except.bind, hchannel]
  rfl

theorem channelMessagesFor_of_found (hserver : w.store.findBySlug (trim slug) = some server)
    (hchannel : w.store.findByName server.id (normalizeChannelName channel) = some c) :
    w.channelMessagesFor viewer slug channel =
      .ok ((w.store.listForChannel c.id).filter (w.sees viewer server)) := by
  simp only [World.channelMessagesFor, channelMessages_of_found hserver hchannel, hserver,
    Option.elim, bind, Except.bind]
  rfl

/-- Hidden is what the author does not share with newcomers and wrote before the viewer came. -/
theorem World.hides_iff (hserver : w.store.findBySlug (trim slug) = some server)
    (hchannel : w.store.findByName server.id (normalizeChannelName channel) = some c)
    {m : Message} :
    w.Hides viewer slug channel m ↔
      m ∈ w.store.listForChannel c.id ∧ w.sees viewer server m = false := by
  unfold Hides
  rw [channelMessages_of_found hserver hchannel, channelMessagesFor_of_found hserver hchannel]
  constructor
  · rintro ⟨all, shown, hall, hshown, hm, hunseen⟩
    cases hall
    cases hshown
    refine ⟨hm, ?_⟩
    rw [Bool.eq_false_iff]
    exact fun hseen => hunseen (List.mem_filter.2 ⟨hm, hseen⟩)
  · rintro ⟨hm, hunseen⟩
    refine ⟨_, _, rfl, rfl, hm, fun hshown => ?_⟩
    rw [(List.mem_filter.1 hshown).2] at hunseen
    cases hunseen

end Listing

/-- The viewer is shown the same messages. -/
theorem channelMessagesFor_eq {w w' : World} {viewer slug channel : String}
    (h : World.AlikeBut (w.Hides viewer slug channel) w w') :
    w'.channelMessagesFor viewer slug channel = w.channelMessagesFor viewer slug channel := by
  obtain ⟨hrest, hrows⟩ := h
  generalize w'.store.messages = messages at hrest hrows
  subst hrest
  cases hserver : w.store.findBySlug (trim slug) with
  | none =>
    have hserver' : (w.mapStore (fun s => { s with messages := messages })).store.findBySlug
        (trim slug) = none := hserver
    simp only [World.channelMessagesFor, Inner.channelMessages, hserver, hserver']
    rfl
  | some server =>
    have hserver' : (w.mapStore (fun s => { s with messages := messages })).store.findBySlug
        (trim slug) = some server := hserver
    cases hchannel : w.store.findByName server.id (normalizeChannelName channel) with
    | none =>
      have hchannel' : (w.mapStore (fun s => { s with messages := messages })).store.findByName
          server.id (normalizeChannelName channel) = none := hchannel
      simp only [World.channelMessagesFor, Inner.channelMessages, hserver, hserver', Option.elim,
        bind, Except.bind, hchannel, hchannel']
    | some c =>
      rw [channelMessagesFor_of_found hserver hchannel,
        channelMessagesFor_of_found hserver' hchannel]
      refine congrArg Except.ok ?_
      show (messages.rows.filter _).filter (w.sees viewer server) =
        (w.store.messages.rows.filter _).filter (w.sees viewer server)
      rw [List.filter_filter, List.filter_filter]
      refine filter_eq_of_forall₂ hrows (fun m _ hm => ?_) (fun _ _ _ => rfl)
      rw [((World.hides_iff hserver hchannel).1 hm).2, Bool.false_and]

/-- Whatever the hidden messages say and carry, the viewer is sent the same listing, with the
quotes, the mentions and the attachments of the messages that are in it. -/
theorem history_sharing_noninterference (signer : SessionSigner) (cookies : Option String)
    (slug channel : String) (w w' : World)
    (h : World.AlikeBut (w.Hides ((currentActor signer w cookies).getD "") slug channel) w w') :
    listMessages signer w' cookies slug channel = listMessages signer w cookies slug channel := by
  have hmessages := channelMessagesFor_eq h
  have hactor : currentActor signer w' cookies = currentActor signer w cookies := by
    rw [h.rest]
    rfl
  have hdto : ∀ viewer,
      buildMessageDto w'.store slug viewer = buildMessageDto w.store slug viewer := by
    intro viewer
    rw [h.rest]
    rfl
  simp only [listMessages, hactor, hmessages, hdto]

namespace Agora

/-- The founder writes and shares no history; somebody who joins later answers. -/
def reticence : List Op :=
  founding ++ [.createChannel "zed" "agora" "square" "", .setClock (day 1),
    .postMessage "zed" "agora" "square" "a secret", .setHistorySharing "zed" "agora" false,
    .setClock (day 2), .registerAccount "ann", .joinServer "ann" "agora",
    .replyMessage "ann" (composeId 0 1) "tell me, @zed"]

def reticent : World := services.run (.empty 0 (day 0)) reticence

def untold : Message :=
  .new (composeId 0 1) (composeId 0 1) sid (composeId 0 1) "a secret" none (day 1)

def answer : Message :=
  .new (composeId 0 2) (composeId 0 1) sid (composeId 0 2) "tell me, @zed" (some (composeId 0 1))
    (day 2)

/-- The same day, had the founder written something else. -/
def alternate : World :=
  reticent.mapStore (fun s => { s with
    messages := s.messages.insert { untold with body := "another secret" } })

def unsigned : SessionSigner := ⟨fun _ _ => []⟩

end Agora

theorem history_sharing_noninterference_untold :
    listMessages Agora.unsigned Agora.alternate none "agora" "square" =
        listMessages Agora.unsigned Agora.reticent none "agora" "square" ∧
      (listMessages Agora.unsigned Agora.reticent none "agora" "square").toOption.map
        (·.map (fun m => (m.body, m.replyTo))) = some [("tell me, @zed", none)] := by
  have hrows : Agora.reticent.store.messages.rows = [Agora.untold, Agora.answer] := by
    decide +kernel
  have hrows' : Agora.alternate.store.messages.rows =
      [{ Agora.untold with body := "another secret" }, Agora.answer] := by
    decide +kernel
  refine ⟨history_sharing_noninterference Agora.unsigned none "agora" "square" Agora.reticent
    Agora.alternate ⟨rfl, ?_⟩, by decide +kernel⟩
  rw [hrows, hrows']
  refine .cons (.inr ⟨?_, "another secret", [], rfl⟩) (.cons (.inl rfl) .nil)
  refine ⟨[Agora.untold, Agora.answer], [Agora.answer], ?_, ?_, ?_, ?_⟩
  · decide +kernel
  · decide +kernel
  · decide +kernel
  · decide +kernel

end Democrachat
