import Democrachat.Domain.NormalForms
import Democrachat.Polity.UseCases

/-!
# Names

Within a server the channels, the roles and the emojis bear different names, and the servers
different slugs; all of them in normal form.
-/

namespace Democrachat

open Library Req

/-! ## Named rows -/

section Named

variable {ν γ κ : Type} [LinearOrder κ] {normalize : String → String} {group : ν → γ}
  {name : ν → String}

/-- The rows of a group bear different names, each one in normal form and not empty. -/
structure Named (normalize : String → String) (group : ν → γ) (name : ν → String)
    (rows : List ν) : Prop where
  unique : ∀ x ∈ rows, ∀ y ∈ rows, group x = group y → name x = name y → x = y
  named : ∀ x ∈ rows, (name x).isEmpty = false ∧ normalize (name x) = name x

namespace Named

theorem nil : Named normalize group name [] := ⟨fun _ h => (nomatch h), fun _ h => (nomatch h)⟩

theorem of_subset {rows rows' : List ν} (h : Named normalize group name rows)
    (hsubset : ∀ x ∈ rows', x ∈ rows) : Named normalize group name rows' :=
  ⟨fun x hx y hy => h.unique x (hsubset x hx) y (hsubset y hy),
    fun x hx => h.named x (hsubset x hx)⟩

variable {key : ν → κ} {t : Table key}

/-- A row is written under a name that no other row of its group bears. -/
theorem insert (h : Named normalize group name t.rows) {v : ν}
    (hfree : ∀ x ∈ t.rows, group x = group v → name x = name v → key x = key v)
    (hnamed : (name v).isEmpty = false ∧ normalize (name v) = name v) :
    Named normalize group name (t.insert v).rows where
  unique := by
    intro x hx y hy hgroup hname
    rcases Table.mem_insert.1 hx with hxv | ⟨hxold, hxkey⟩
    · rcases Table.mem_insert.1 hy with hyv | ⟨hyold, hykey⟩
      · exact hxv.trans hyv.symm
      · rw [hxv] at hgroup hname
        exact absurd (hfree y hyold hgroup.symm hname.symm) hykey
    · rcases Table.mem_insert.1 hy with hyv | ⟨hyold, -⟩
      · rw [hyv] at hgroup hname
        exact absurd (hfree x hxold hgroup hname) hxkey
      · exact h.unique x hxold y hyold hgroup hname
  named := forall_insert h.named hnamed

/-- A row is rewritten that keeps its name. -/
theorem rewrite (h : Named normalize group name t.rows) {u v : ν} (hu : u ∈ t.rows)
    (hkey : key v = key u) (hgroup : group v = group u) (hname : name v = name u) :
    Named normalize group name (t.insert v).rows := by
  refine h.insert (fun x hx hsame hequal => ?_) ?_
  · rw [h.unique x hx u hu (hsame.trans hgroup) (hequal.trans hname), hkey]
  · rw [hname]
    exact h.named u hu

/-- A lookup by group and name has one candidate at most. -/
theorem sole (h : Named normalize group name t.rows) {p : ν → Bool} {g : γ} {n : String}
    (hp : ∀ x, p x = true → group x = g ∧ name x = n) : (t.rows.filter p).length ≤ 1 := by
  have hrowsNodup : t.rows.Nodup :=
    t.sorted.imp (fun hlt hsame => hlt.ne (congrArg key hsame))
  have hnodup : (t.rows.filter p).Nodup := hrowsNodup.filter p
  match hrows : t.rows.filter p with
  | [] => exact Nat.zero_le _
  | [_] => exact Nat.le_refl _
  | x :: y :: rest =>
    obtain ⟨hx, hpx⟩ := List.mem_filter.1 (hrows ▸ List.mem_cons_self : x ∈ t.rows.filter p)
    obtain ⟨hy, hpy⟩ := List.mem_filter.1
      (hrows ▸ List.mem_cons_of_mem _ List.mem_cons_self : y ∈ t.rows.filter p)
    have hsame := h.unique x hx y hy ((hp x hpx).1.trans (hp y hpy).1.symm)
      ((hp x hpx).2.trans (hp y hpy).2.symm)
    rw [hrows, hsame] at hnodup
    exact absurd List.mem_cons_self (List.nodup_cons.1 hnodup).1

end Named

end Named

/-! ## Effects -/

/-- The names that the polity bears. -/
structure PolityNamed (c : Polity) : Prop where
  channels : Named normalizeChannelName Channel.serverId Channel.name c.channels.rows
  roles : Named normalizeRoleName Role.serverId Role.name c.roles.rows
  slugs : Named slugify (fun _ => ()) Server.slug c.servers.rows

namespace PolityNamed

variable {c : Polity}

theorem addChannel (h : PolityNamed c) {sid : ServerId} {name : String} (topic : String)
    (now : Timestamp) (hname : (normalizeChannelName name).isEmpty = false)
    (hfree : c.findChannel sid (normalizeChannelName name) = none) :
    PolityNamed (c.addChannel sid (normalizeChannelName name) topic now) where
  channels := by
    refine h.channels.insert (fun x hx hserver hsame => ?_)
      ⟨hname, normalizeChannelName_normalizeChannelName name⟩
    have hother := List.find?_eq_none.1 hfree x hx
    simp only [Bool.and_eq_true, beq_iff_eq, not_and] at hother
    exact absurd hsame (hother hserver)
  roles := h.roles
  slugs := h.slugs

theorem addRole (h : PolityNamed c) {sid : ServerId} {name : String} (now : Timestamp)
    (hname : (normalizeRoleName name).isEmpty = false)
    (hfree : c.findRole sid (normalizeRoleName name) = none) :
    PolityNamed (c.addRole sid (normalizeRoleName name) now) where
  channels := h.channels
  roles := by
    refine h.roles.insert (fun r hr hserver hsame => ?_)
      ⟨hname, normalizeRoleName_normalizeRoleName name⟩
    have hother := List.find?_eq_none.1 hfree r hr
    simp only [Bool.and_eq_true, beq_iff_eq, not_and] at hother
    exact absurd hsame (hother hserver)
  slugs := h.slugs

theorem found (h : PolityNamed c) {name : String} (title : String) (founder : UserId)
    (isPrivate : Bool) (hname : (slugify name).isEmpty = false)
    (hfree : c.findBySlug (slugify name) = none) :
    PolityNamed (c.found (slugify name) title founder isPrivate) where
  channels := h.channels
  roles := h.roles
  slugs := by
    refine h.slugs.insert (fun g hg _ hsame => ?_) ⟨hname, slugify_slugify name⟩
    have hother := List.find?_eq_none.1 hfree g hg
    exact absurd (beq_iff_eq.2 hsame) hother

theorem editServer (h : PolityNamed c) (sid : ServerId) {f : Server → Server}
    (hid : ∀ g, (f g).id = g.id) (hslug : ∀ g, (f g).slug = g.slug) :
    PolityNamed (c.editServer sid f) := by
  unfold Polity.editServer
  split
  next g hg =>
    exact ⟨h.channels, h.roles, h.slugs.rewrite (Table.mem_of_get hg) (hid g) rfl (hslug g)⟩
  next => exact h

theorem enact (h : PolityNamed c) (sid : ServerId) (kind : ProposalKind) (now : Timestamp) :
    PolityNamed (c.enact sid kind now) := by
  cases kind with
  | createChannel name topic =>
    simp only [Polity.enact]
    split
    next => exact h
    next hnew =>
      simp only [Bool.or_eq_true, not_or, Bool.not_eq_true, Option.isSome_eq_false_iff,
        Option.isNone_iff_eq_none] at hnew
      exact h.addChannel topic now hnew.1 hnew.2
  | deleteChannel name =>
    simp only [Polity.enact]
    split
    next =>
      exact ⟨h.channels.of_subset (fun x hx => (Table.mem_erase.1 hx).1), h.roles, h.slugs⟩
    next => exact h
  | createRole name =>
    simp only [Polity.enact]
    split
    next => exact h
    next hnew =>
      simp only [Bool.or_eq_true, not_or, Bool.not_eq_true, Option.isSome_eq_false_iff,
        Option.isNone_iff_eq_none] at hnew
      exact h.addRole now hnew.1 hnew.2
  | deleteRole role =>
    simp only [Polity.enact]
    split
    next =>
      exact ⟨h.channels, h.roles.of_subset (fun r hr => (Table.mem_erase.1 hr).1), h.slugs⟩
    next => exact h
  | setGovernanceSurface => exact h.editServer sid (fun _ => rfl) (fun _ => rfl)
  | amendCriteria => exact h.editServer sid (fun _ => rfl) (fun _ => rfl)
  | setJurySizing => exact h.editServer sid (fun _ => rfl) (fun _ => rfl)
  | setVoteWeighting => exact h.editServer sid (fun _ => rfl) (fun _ => rfl)
  | setWeightingScope => exact h.editServer sid (fun _ => rfl) (fun _ => rfl)
  | setRehomingPolicy => exact h.editServer sid (fun _ => rfl) (fun _ => rfl)
  | setInvitePolicy => exact h.editServer sid (fun _ => rfl) (fun _ => rfl)
  | _ =>
    simp only [Polity.enact, Polity.editMembership, Polity.assign]
    repeat' split
    all_goals exact ⟨h.channels, h.roles, h.slugs⟩

theorem resolveDue (h : PolityNamed c) (serverSlug : String) :
    PolityNamed (c.resolveDue serverSlug) := by
  apply Polity.resolveDue_keeps
  · exact fun _ _ h => ⟨h.channels, h.roles, h.slugs⟩
  · exact fun _ _ _ h => ⟨h.channels, h.roles, h.slugs⟩
  · exact fun _ sid kind now h => h.enact sid kind now
  · exact h

end PolityNamed

/-! ## Requests -/

/-- The names of the whole store. -/
structure World.NamesSound (w : World) : Prop where
  channels : Named normalizeChannelName Channel.serverId Channel.name w.store.channels.rows
  roles : Named normalizeRoleName Role.serverId Role.name w.store.roles.rows
  slugs : Named slugify (fun _ => ()) Server.slug w.store.servers.rows
  emojis : Named normalizeEmojiName Emoji.serverId Emoji.name w.store.emojis.rows

section Requests

variable (w : World)

/-- The rows that `addEmoji` finds for a new name. -/
structure Depicts (w : World) (serverSlug name : String) (server : Server) : Prop where
  serverFound : w.store.findBySlug (trim serverSlug) = some server
  named : (normalizeEmojiName name).isEmpty = false
  free : w.store.findEmoji server.id (normalizeEmojiName name) = none

theorem addEmoji_cases (adderHandle serverSlug name url : String) :
    ((addEmoji adderHandle serverSlug name url).exec w).2 = w ∨
    ∃ server user, Depicts w serverSlug name server ∧
      ((addEmoji adderHandle serverSlug name url).exec w).2 =
        (w.mapStore (·.nextEmojiId.2)).mapStore (·.insertEmoji
          ⟨w.store.nextEmojiId.1, server.id, normalizeEmojiName name, url, user, w.now⟩) := by
  simp only [addEmoji, req_ask_bind, exec_okOr_bind, exec_ensure_bind, req_transact_bind,
    req_clockNow_bind, req_write_bind, exec_pure]
  split
  next server hserver =>
    split
    next user _ =>
      split
      next =>
        split
        next hnamed =>
          split
          next hfree =>
            exact .inr ⟨server, user.id, ⟨hserver, by simpa using hnamed,
              Option.isNone_iff_eq_none.1 hfree⟩, rfl⟩
          next => exact .inl rfl
        next => exact .inl rfl
      next => exact .inl rfl
    next => exact .inl rfl
  next => exact .inl rfl

theorem voteEmoji_emojis (voterHandle serverSlug : String) (emojiId : EmojiId) (isUp : Bool) :
    ((voteEmoji voterHandle serverSlug emojiId isUp).exec w).2.store.emojis = w.store.emojis := by
  simp only [voteEmoji, req_ask_bind, exec_okOr_bind, exec_liftM, exec_write]
  repeat' split
  all_goals rfl

end Requests

namespace World.NamesSound

variable {services : Services} {w w' : World}

theorem polity (h : w.NamesSound) : PolityNamed w.polity := ⟨h.channels, h.roles, h.slugs⟩

theorem of_polity (h : w.NamesSound) (hpolity : PolityNamed w'.polity)
    (hemojis : w'.store.emojis = w.store.emojis) : w'.NamesSound where
  channels := hpolity.channels
  roles := hpolity.roles
  slugs := hpolity.slugs
  emojis := by
    rw [hemojis]
    exact h.emojis

theorem addEmoji (h : w.NamesSound) {serverSlug name : String} {server : Server}
    (hdepicts : Depicts w serverSlug name server) (url : String) (user : UserId) :
    ((w.mapStore (·.nextEmojiId.2)).mapStore (·.insertEmoji
      ⟨w.store.nextEmojiId.1, server.id, normalizeEmojiName name, url, user, w.now⟩)).NamesSound where
  channels := h.channels
  roles := h.roles
  slugs := h.slugs
  emojis := by
    refine h.emojis.insert (fun e he hserver hsame => ?_)
      ⟨hdepicts.named, normalizeEmojiName_normalizeEmojiName name⟩
    have hother := List.find?_eq_none.1 hdepicts.free e he
    simp only [Bool.and_eq_true, beq_iff_eq, not_and] at hother
    exact absurd hsame (hother hserver)

theorem serve (h : w.NamesSound) (u : UseCase) : (services.serve w u).NamesSound := by
  have hspares := spares_serve services w u
  have hspared : u.parts.contains .channels = false → u.parts.contains .roles = false →
      u.parts.contains .servers = false → u.parts.contains .emojis = false →
      (services.serve w u).NamesSound := by
    intro hchannels hroles hservers hemojis
    constructor
    · exact (hspares.channels hchannels).symm ▸ h.channels
    · exact (hspares.roles hroles).symm ▸ h.roles
    · exact (hspares.servers hservers).symm ▸ h.slugs
    · exact (hspares.emojis hemojis).symm ▸ h.emojis
  cases u with
  | op op =>
    cases op with
    | foundServer founderHandle name isPrivate =>
      refine h.of_polity ?_ (hspares.emojis rfl)
      rcases foundServer_cases w founderHandle name isPrivate with
        ⟨-, hsame⟩ | ⟨founder, hfounds, -, hfound⟩
      · exact hsame.symm ▸ h.polity
      · exact hfound.symm ▸ h.polity.found _ _ _ hfounds.named hfounds.free
    | createChannel founderHandle serverSlug name topic =>
      refine h.of_polity ?_ (hspares.emojis rfl)
      rcases createChannel_cases w founderHandle serverSlug name topic with
        hsame | ⟨server, hprovisions, hadded⟩
      · exact (congrArg World.polity hsame).symm ▸ h.polity
      · exact (congrArg World.polity hadded).symm ▸
          h.polity.addChannel (trim topic) w.now hprovisions.named hprovisions.free
    | resolveDue serverSlug =>
      refine h.of_polity ?_ (hspares.emojis rfl)
      exact (polity_resolveDue w serverSlug).symm ▸ h.polity.resolveDue serverSlug
    | listProposals serverSlug =>
      refine h.of_polity ?_ (hspares.emojis rfl)
      exact (polity_listProposals w serverSlug).symm ▸ h.polity.resolveDue serverSlug
    | _ => exact hspared rfl rfl rfl rfl
  | enableChannelEncryption handle serverSlug channelName historyMode =>
    rcases enableChannelEncryption_cases w handle serverSlug channelName historyMode with
      ⟨e, herror⟩ | ⟨server, x, hencrypts, hexec⟩
    · rw [Services.serve, herror]
      exact h
    · rw [Services.serve, hexec]
      have hx := Table.mem_of_get (channels_get_of_findByName hencrypts.channelFound)
      exact ⟨h.channels.rewrite hx rfl rfl rfl, h.roles, h.slugs, h.emojis⟩
  | addEmoji adderHandle serverSlug name url =>
    rcases addEmoji_cases w adderHandle serverSlug name url with
      hsame | ⟨server, user, hdepicts, hadded⟩
    · rw [Services.serve, hsame]
      exact h
    · rw [Services.serve, hadded]
      exact h.addEmoji hdepicts url user
  | voteEmoji voterHandle serverSlug emojiId isUp =>
    constructor
    · exact (hspares.channels rfl).symm ▸ h.channels
    · exact (hspares.roles rfl).symm ▸ h.roles
    · exact (hspares.servers rfl).symm ▸ h.slugs
    · exact (voteEmoji_emojis w voterHandle serverSlug emojiId isUp).symm ▸ h.emojis
  | _ => exact hspared rfl rfl rfl rfl

end World.NamesSound

/-- Every lookup by name has one candidate at most. -/
structure World.SoleCandidates (w : World) : Prop where
  findByName : ∀ server name,
    (w.store.channels.rows.filter (fun x => x.serverId == server && x.name == name)).length ≤ 1
  findRole : ∀ server name,
    (w.store.roles.rows.filter (fun r => r.serverId == server && r.name == name)).length ≤ 1
  findEmoji : ∀ server name,
    (w.store.emojis.rows.filter (fun e => e.serverId == server && e.name == name)).length ≤ 1
  findBySlug : ∀ slug, (w.store.servers.rows.filter (fun g => g.slug == slug)).length ≤ 1

theorem World.NamesSound.sole {w : World} (h : w.NamesSound) : w.SoleCandidates where
  findByName _ _ := h.channels.sole (fun _ hx => by simpa using hx)
  findRole _ _ := h.roles.sole (fun _ hr => by simpa using hr)
  findEmoji _ _ := h.emojis.sole (fun _ he => by simpa using he)
  findBySlug _ := h.slugs.sole (fun _ hg => ⟨rfl, by simpa using hg⟩)

theorem Services.Served.namesSound {services : Services} {w : World} (hw : services.Served w) :
    w.NamesSound :=
  hw.invariant (I := World.NamesSound) (fun _ _ => ⟨.nil, .nil, .nil, .nil⟩) (fun _ u _ h => h.serve u)

/-- Whatever the requests of a run, names stay unique and in normal form. -/
theorem names_unique (services : Services) (node : NodeId) (now : Timestamp) (us : List UseCase) :
    (services.serveAll (.empty node now) us).NamesSound ∧
      (services.serveAll (.empty node now) us).SoleCandidates := by
  have hserved : services.Served (services.serveAll (.empty node now) us) := ⟨node, now, us, rfl⟩
  exact ⟨hserved.namesSound, hserved.namesSound.sole⟩

end Democrachat
