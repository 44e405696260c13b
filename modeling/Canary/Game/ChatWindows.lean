import Canary.Game.Chat

/-!
# The windows of private channels

In every run, the private channels have different owners, all their users are invited, and all of
these players are in the game (`Good`). The messages of every operation do to the windows
of the clients what the operation does to the channels (`Shows`). So the windows always show
who takes part (`windows_of_reachable`), and nobody else gets what is said (`talk_of_reachable`).
-/

namespace Canary.Game.ChatChannels

open Transition

variable {u id guid : ℕ} {window : Option (Finset ℕ)} {mails mails' : List Mail}
  {message : Message} {users : Finset ℕ} {channel : ChatChannel}

/-! ## Messages -/

theorem receive_nil : receive u id window [] = window := rfl

theorem receive_append : receive u id window (mails ++ mails') =
    receive u id (receive u id window mails) mails' :=
  List.foldl_append

theorem receive_cons {mail : Mail} : receive u id window (mail :: mails) =
    receive u id (if mail.1 = u then mail.2.show u id window else window) mails := rfl

/-- Every user gets the message once. -/
theorem receive_sendToUsers : receive u id window (sendToUsers users message) =
    if u ∈ users then message.show u id window else window := by
  have hmem : u ∈ users ↔ u ∈ users.sort (· ≤ ·) := (Finset.mem_sort (· ≤ ·)).symm
  simp only [sendToUsers, hmem]
  have hnodup := Finset.sort_nodup users (· ≤ ·)
  generalize users.sort (· ≤ ·) = l at hnodup ⊢
  induction l generalizing window with
  | nil => rfl
  | cons v l ih =>
    obtain ⟨hv, hl⟩ := List.nodup_cons.1 hnodup
    rw [List.map_cons, receive_cons, ih hl]
    by_cases huv : v = u
    · rw [if_pos huv, if_neg (huv ▸ hv), if_pos (List.mem_cons.2 (.inl huv.symm))]
    · simp [huv, Ne.symm huv]

/-- The messages do nothing to the windows of private channels. -/
def Silent (mails : List Mail) : Prop :=
  ∀ id ∈ Chat.slots, ∀ u window, receive u id window mails = window

theorem silent_nil : Silent [] := fun _ _ _ _ => rfl

theorem Silent.append (h : Silent mails) (h' : Silent mails') : Silent (mails ++ mails') := by
  intro id hid u window
  rw [receive_append, h id hid, h' id hid]

theorem silent_sendToUsers (h : ∀ id ∈ Chat.slots, ∀ u window,
    message.show u id window = window) : Silent (sendToUsers users message) := by
  intro id hid u window
  rw [receive_sendToUsers, h id hid, ite_self]

/-- The messages of one channel do nothing to the window of another. -/
theorem receive_withoutUser_of_ne (h : channel.id ≠ id) :
    receive u id window (channel.withoutUser guid).2 = window := by
  rw [ChatChannel.withoutUser, ChatChannel.removeUser]
  split
  · rfl
  · rw [Option.getD_some]
    dsimp only
    split
    · rfl
    · rw [receive_sendToUsers]
      simp only [Message.show, if_neg h, ite_self]

theorem withoutUser_users : (channel.withoutUser guid).1 =
    { channel with users := channel.users.erase guid } := by
  rw [ChatChannel.withoutUser, ChatChannel.removeUser]
  split
  case isTrue h => rw [Option.getD_none, Finset.erase_eq_of_notMem h]
  case isFalse => rfl

/-- The window of a channel shows its users, to each of them. -/
def shown (channel : Option ChatChannel) (u : ℕ) : Option (Finset ℕ) :=
  channel.bind fun channel => if u ∈ channel.users then some channel.users else none

theorem shown_some : shown (some channel) u =
    if u ∈ channel.users then some channel.users else none := rfl

/-- The other users are told that one has left. -/
theorem receive_withoutUser (hid : channel.id = id) (hpublic : channel.publicChannel = false)
    (hu : u ≠ guid) : receive u id (shown (some channel) u) (channel.withoutUser guid).2 =
      shown (some (channel.withoutUser guid).1) u := by
  rw [withoutUser_users, ChatChannel.withoutUser, ChatChannel.removeUser]
  split
  case isTrue h =>
    rw [Option.getD_none, receive_nil, Finset.erase_eq_of_notMem h]
  case isFalse h =>
    simp only [Option.getD_some, hpublic, Bool.false_eq_true, if_false, receive_sendToUsers,
      Finset.mem_erase, shown_some, hu, ne_eq, not_false_eq_true, true_and]
    split
    case isTrue hmem => rw [Message.show, if_pos hid, Option.map_some]
    case isFalse => rfl

/-- The one who leaves gets no message. -/
theorem receive_withoutUser_self :
    receive guid id window (channel.withoutUser guid).2 = window := by
  rw [ChatChannel.withoutUser, ChatChannel.removeUser]
  split
  · rfl
  · rw [Option.getD_some]
    dsimp only
    split
    · rfl
    · rw [receive_sendToUsers, if_neg (Finset.notMem_erase guid channel.users)]

/-! ## The channels of the chat -/

/-- The channels are those of players in the game. Private channels have different owners, and
    their users are invited. -/
structure Good (chat : Chat) (online : Finset ℕ) : Prop where
  numbered : ∀ {id channel}, chat.privateChannels.lookup id = some channel →
    id ∈ Chat.slots ∧ channel.id = id ∧ channel.publicChannel = false
  elsewhere : ∀ {ref channel}, chat.find ref = some channel →
    channel.id ∉ Chat.slots ∨ ref = .private_ channel.id
  normal : ∀ {id}, id ∈ Chat.slots → chat.normalChannels.lookup id = none
  owner : ∀ {i j c d}, chat.privateChannels.lookup i = some c →
    chat.privateChannels.lookup j = some d → c.owner = d.owner → i = j
  invited : ∀ {id channel}, chat.privateChannels.lookup id = some channel →
    ∀ u ∈ channel.users, channel.isInvited u
  online : ∀ {id channel}, chat.privateChannels.lookup id = some channel →
    channel.owner ∈ online ∧ channel.users ⊆ online ∧ channel.invites ⊆ online

/-- The messages do to the windows what has been done to the private channels. -/
def Shows (chat chat' : Chat) (mails : List Mail) : Prop :=
  ∀ id ∈ Chat.slots, ∀ u, receive u id (shown (chat.privateChannels.lookup id) u) mails =
    shown (chat'.privateChannels.lookup id) u

variable {chat chat' : Chat} {online : Finset ℕ} {ref : Ref} {player : Player} {canJoin : Bool}

theorem mem_slots : id ∈ Chat.slots ↔ 100 ≤ id ∧ id < 10000 := by
  rw [Chat.slots, List.mem_range'_1]

theorem Silent.shows (h : Silent mails)
    (hprivate : chat'.privateChannels = chat.privateChannels) : Shows chat chat' mails := by
  intro id hid u
  rw [h id hid, hprivate]

theorem isInvited_iff : channel.isInvited u ↔ u = channel.owner ∨ u ∈ channel.invites := by
  rw [ChatChannel.isInvited, Bool.or_eq_true, decide_eq_true_iff, decide_eq_true_iff]

/-- Only those may open a private channel who are invited. -/
theorem find_of_getChannel (h : chat.getChannel player id canJoin = some ref) :
    ∃ channel, chat.find ref = some channel ∧
      (∀ i, ref = .private_ i → i = id ∧ channel.isInvited player.guid) := by
  rw [Chat.getChannel] at h
  split at h
  case isTrue =>
    obtain ⟨guild, -, h⟩ := Option.bind_eq_some_iff.1 h
    obtain ⟨hfind, heq⟩ := Option.ite_none_right_eq_some.1 h
    obtain rfl := Option.some.inj heq
    obtain ⟨channel, hchannel⟩ := Option.isSome_iff_exists.1 hfind
    exact ⟨channel, hchannel, fun i hi => by cases hi⟩
  case isFalse =>
    split at h
    case isTrue =>
      obtain ⟨party, -, h⟩ := Option.bind_eq_some_iff.1 h
      obtain ⟨hfind, heq⟩ := Option.ite_none_right_eq_some.1 h
      obtain rfl := Option.some.inj heq
      obtain ⟨channel, hchannel⟩ := Option.isSome_iff_exists.1 hfind
      exact ⟨channel, hchannel, fun i hi => by cases hi⟩
    case isFalse =>
      split at h
      case h_1 channel hchannel =>
        obtain ⟨-, heq⟩ := Option.ite_none_right_eq_some.1 h
        obtain rfl := Option.some.inj heq
        exact ⟨channel, hchannel, fun i hi => by cases hi⟩
      case h_2 =>
        split at h
        case h_1 channel hchannel =>
          obtain ⟨hinvited, heq⟩ := Option.ite_none_right_eq_some.1 h
          obtain rfl := Option.some.inj heq
          refine ⟨channel, hchannel, fun i hi => ⟨(Ref.private_.inj hi).symm, hinvited⟩⟩
        case h_2 => cases h

/-- A private channel is found by its number. -/
theorem getChannel_private (hgood : Good chat online) (hid : id ∈ Chat.slots)
    (h : chat.privateChannels.lookup id = some channel) (hinvited : channel.isInvited player.guid) :
    chat.getChannel player id canJoin = some (.private_ id) := by
  have hslot := mem_slots.1 hid
  have hguild : id ≠ CHANNEL_GUILD := (Nat.lt_of_lt_of_le (by decide) hslot.1).ne'
  have hparty : id ≠ CHANNEL_PARTY := (Nat.lt_of_lt_of_le (by decide) hslot.1).ne'
  rw [Chat.getChannel, if_neg hguild, if_neg hparty]
  simp only [hgood.normal hid, h, if_pos hinvited]

/-- Under a number of private channels, no other one is found. -/
theorem private_of_getChannel (hgood : Good chat online) (hid : id ∈ Chat.slots)
    (h : chat.getChannel player id canJoin = some ref) : ref = .private_ id := by
  have hslot := mem_slots.1 hid
  have hguild : id ≠ CHANNEL_GUILD := (Nat.lt_of_lt_of_le (by decide) hslot.1).ne'
  have hparty : id ≠ CHANNEL_PARTY := (Nat.lt_of_lt_of_le (by decide) hslot.1).ne'
  rw [Chat.getChannel, if_neg hguild, if_neg hparty] at h
  simp only [hgood.normal hid] at h
  split at h
  case h_1 => exact (Option.some.inj (Option.ite_none_right_eq_some.1 h).2).symm
  case h_2 => cases h

/-- The private channel of a player. -/
theorem getPrivateChannel_eq_some {i : ℕ} (h : chat.getPrivateChannel guid = some (i, channel)) :
    chat.privateChannels.lookup i = some channel ∧ channel.owner = guid := by
  rw [Chat.getPrivateChannel] at h
  have howner := List.find?_some h
  exact ⟨SortedMap.mem_entries.1 (List.mem_of_find?_eq_some h), of_decide_eq_true howner⟩

theorem getPrivateChannel_eq_none (h : chat.getPrivateChannel guid = none) {i : ℕ}
    (hi : chat.privateChannels.lookup i = some channel) : channel.owner ≠ guid := by
  have := List.find?_eq_none.1 h (i, channel) (SortedMap.mem_entries.2 hi)
  exact fun heq => this (decide_eq_true heq)

theorem privateChannels_update (hne : ∀ i, ref ≠ .private_ i) :
    (chat.update channel ref).privateChannels = chat.privateChannels := by
  cases ref with
  | private_ i => exact absurd rfl (hne i)
  | _ => rfl

theorem lookup_update_private {i j : ℕ} :
    (chat.update channel (.private_ i)).privateChannels.lookup j =
      if j = i then some channel else chat.privateChannels.lookup j :=
  SortedMap.lookup_insert i channel _ j

theorem find_update {ref' : Ref} : (chat.update channel ref).find ref' =
    if ref' = ref then some channel else chat.find ref' := by
  cases ref <;> cases ref' <;> simp [Chat.update, Chat.find, SortedMap.lookup_insert]

/-- A channel that is not private is put in the place of another, or is new. -/
theorem Good.update (h : Good chat online) (hne : ∀ i, ref ≠ .private_ i)
    (hid : channel.id ∉ Chat.slots) (hnormal : ∀ id ∈ Chat.slots, ref ≠ .normal id) :
    Good (chat.update channel ref) online := by
  have hprivate : (chat.update channel ref).privateChannels = chat.privateChannels :=
    privateChannels_update hne
  constructor
  · exact fun hi => h.numbered (hprivate ▸ hi)
  · intro ref' c hc
    rw [find_update] at hc
    split at hc
    · exact .inl (Option.some.inj hc ▸ hid)
    · exact h.elsewhere hc
  · intro id hslot
    have hfind : (chat.update channel ref).find (.normal id) = chat.find (.normal id) := by
      rw [find_update, if_neg (hnormal id hslot).symm]
    exact hfind.trans (h.normal hslot)
  · exact fun hi hj => h.owner (hprivate ▸ hi) (hprivate ▸ hj)
  · exact fun hi => h.invited (hprivate ▸ hi)
  · exact fun hi => h.online (hprivate ▸ hi)

/-- A private channel is put in the place of another, or is new. -/
theorem Good.update_private (h : Good chat online) (hslot : id ∈ Chat.slots)
    (hid : channel.id = id) (hpublic : channel.publicChannel = false)
    (howner : ∀ j d, chat.privateChannels.lookup j = some d → d.owner = channel.owner → j = id)
    (hinvited : ∀ u ∈ channel.users, channel.isInvited u)
    (honline : channel.owner ∈ online ∧ channel.users ⊆ online ∧ channel.invites ⊆ online) :
    Good (chat.update channel (.private_ id)) online := by
  constructor
  · intro i c hc
    rw [lookup_update_private] at hc
    split at hc
    case isTrue heq =>
      obtain rfl := Option.some.inj hc
      exact ⟨heq ▸ hslot, heq ▸ hid, hpublic⟩
    case isFalse => exact h.numbered hc
  · intro ref' c hc
    rw [find_update] at hc
    split at hc
    case isTrue heq =>
      obtain rfl := Option.some.inj hc
      exact .inr (by rw [heq, hid])
    case isFalse => exact h.elsewhere hc
  · exact fun hi => h.normal hi
  · intro i j c d hc hd heq
    rw [lookup_update_private] at hc hd
    split at hc <;> split at hd
    case isTrue.isTrue hi hj => exact hi.trans hj.symm
    case isTrue.isFalse hi hj =>
      obtain rfl := Option.some.inj hc
      exact hi.trans (howner j d hd heq.symm).symm
    case isFalse.isTrue hi hj =>
      obtain rfl := Option.some.inj hd
      exact (howner i c hc heq).trans hj.symm
    case isFalse.isFalse => exact h.owner hc hd heq
  · intro i c hc
    rw [lookup_update_private] at hc
    split at hc
    · exact Option.some.inj hc ▸ hinvited
    · exact h.invited hc
  · intro i c hc
    rw [lookup_update_private] at hc
    split at hc
    · exact Option.some.inj hc ▸ honline
    · exact h.online hc

/-- Some private channels are taken away. -/
theorem Good.of_le (h : Good chat online)
    (hprivate : ∀ i c, chat'.privateChannels.lookup i = some c →
      chat.privateChannels.lookup i = some c)
    (helsewhere : ∀ ref c, chat'.find ref = some c → chat.find ref = some c)
    (hnormal : chat'.normalChannels = chat.normalChannels) : Good chat' online where
  numbered hi := h.numbered (hprivate _ _ hi)
  elsewhere hc := h.elsewhere (helsewhere _ _ hc)
  normal hi := hnormal ▸ h.normal hi
  owner hi hj := h.owner (hprivate _ _ hi) (hprivate _ _ hj)
  invited hi := h.invited (hprivate _ _ hi)
  online hi := h.online (hprivate _ _ hi)

/-! ## What the operations do -/

theorem addUser_eq_some {onJoin : Bool} {channel' : ChatChannel}
    (h : channel.addUser guid onJoin = some (channel', mails)) :
    guid ∉ channel.users ∧ channel' = { channel with users := insert guid channel.users } ∧
      mails = if channel.publicChannel then []
        else sendToUsers channel.users (.channelEvent channel.id guid .join) := by
  rw [ChatChannel.addUser] at h
  split at h
  case isTrue => cases h
  case isFalse hnot =>
    split at h
    case isTrue => cases h
    case isFalse =>
      obtain ⟨rfl, rfl⟩ := Prod.mk.injEq .. ▸ Option.some.inj h
      exact ⟨hnot, rfl, rfl⟩

theorem removeUser_eq_some {channel' : ChatChannel}
    (h : channel.removeUser guid = some (channel', mails)) :
    guid ∈ channel.users ∧ channel.withoutUser guid = (channel', mails) := by
  refine ⟨?_, by rw [ChatChannel.withoutUser, h, Option.getD_some]⟩
  by_contra hnot
  rw [ChatChannel.removeUser, if_pos hnot] at h
  cases h

/-- A message about a channel of another number. -/
theorem silent_of_notMem {i : ℕ} (hi : i ∉ Chat.slots) {event : ChannelEvent} :
    Silent (sendToUsers users (.channelEvent i guid event)) := by
  refine silent_sendToUsers fun id hid u window => ?_
  have hne : i ≠ id := fun h => hi (h ▸ hid)
  cases event <;> simp [Message.show, hne]

theorem silent_withoutUser (hid : channel.id ∉ Chat.slots) :
    Silent (channel.withoutUser guid).2 :=
  fun _ hslot _ _ => receive_withoutUser_of_ne fun h => hid (h ▸ hslot)

/-- A new user gets a window with all the users; the others are told of her. -/
theorem shows_addUser (hgood : Good chat online)
    (hc : chat.privateChannels.lookup id = some channel)
    (hmessage : ∀ i window, message.show guid i window =
      if channel.id = i then some (insert guid channel.users) else window) :
    Shows chat
      (chat.update { channel with users := insert guid channel.users } (.private_ id))
      (sendToUsers channel.users (.channelEvent channel.id guid .join) ++ [(guid, message)]) := by
  obtain ⟨-, hid, -⟩ := hgood.numbered hc
  intro i _ u
  rw [receive_append, receive_sendToUsers, receive_cons, receive_nil, lookup_update_private]
  by_cases hi : i = id
  · subst hi
    rw [if_pos rfl, hc, shown_some, shown_some]
    by_cases hu : guid = u
    · subst hu
      rw [if_pos rfl, hmessage, if_pos hid, if_pos (Finset.mem_insert_self guid channel.users)]
    · rw [if_neg hu]
      by_cases hmem : u ∈ channel.users
      · rw [if_pos hmem, if_pos hmem, if_pos (Finset.mem_insert_of_mem hmem), Message.show,
          if_pos hid, Option.map_some]
      · have hmem' : u ∉ insert guid channel.users := fun h =>
          (Finset.mem_insert.1 h).elim (fun h => hu h.symm) hmem
        rw [if_neg hmem, if_neg hmem, if_neg hmem']
  · -- The windows of other channels stay as they are.
    have hne : channel.id ≠ i := fun h => hi (h ▸ hid)
    have hjoin : ∀ window, (Message.channelEvent channel.id guid .join).show u i window = window :=
      fun window => by rw [Message.show, if_neg hne]
    rw [if_neg hi]
    by_cases hu : guid = u
    · subst hu
      rw [if_pos rfl, hmessage, if_neg hne, hjoin, ite_self]
    · rw [if_neg hu, hjoin, ite_self]

theorem good_addUser (hgood : Good chat online) (hguid : guid ∈ online)
    (hc : chat.privateChannels.lookup id = some channel) (hinvited : channel.isInvited guid) :
    Good (chat.update { channel with users := insert guid channel.users } (.private_ id))
      online := by
  obtain ⟨hslot, hid, hpublic⟩ := hgood.numbered hc
  obtain ⟨howner, husers, hinvites⟩ := hgood.online hc
  refine hgood.update_private hslot hid hpublic (fun j d hd heq => hgood.owner hd hc heq) ?_
    ⟨howner, Finset.insert_subset hguid husers, hinvites⟩
  intro u hu
  rcases Finset.mem_insert.1 hu with rfl | hu
  · exact hinvited
  · exact hgood.invited hc u hu

/-- The channel is opened, or nothing happens. -/
theorem addUserToChannel_cases {onJoin : Bool} {opened : Option ChatChannel}
    (h : chat.addUserToChannel player id canJoin onJoin = (chat', mails, opened)) :
    opened = none ∨ ∃ ref channel,
      chat.getChannel player id canJoin = some ref ∧ chat.find ref = some channel ∧
        ∃ channel', channel.addUser player.guid onJoin = some (channel', mails) ∧
          chat' = chat.update channel' ref ∧ opened = some channel' := by
  rw [Chat.addUserToChannel] at h
  split at h
  case h_1 => exact .inl (Prod.mk.inj (Prod.mk.inj h).2).2.symm
  case h_2 ref channel hfound =>
    split at h
    case h_1 => exact .inl (Prod.mk.inj (Prod.mk.inj h).2).2.symm
    case h_2 channel' mails' hadd =>
      obtain ⟨hchat, hrest⟩ := Prod.mk.inj h
      obtain ⟨hmails, hopened⟩ := Prod.mk.inj hrest
      obtain ⟨ref', href, hfind⟩ := Option.bind_eq_some_iff.1 hfound
      obtain ⟨found, hmap, heq⟩ := Option.map_eq_some_iff.1 hfind
      obtain ⟨rfl, rfl⟩ := Prod.mk.inj heq
      exact .inr ⟨ref', found, href, hmap, channel', hmails ▸ hadd, hchat.symm, hopened.symm⟩

/-- A reference to a channel that is not private. -/
theorem Good.update_of_find (hgood : Good chat online) (hfind : chat.find ref = some channel)
    (hne : ∀ i, ref ≠ .private_ i) {channel' : ChatChannel} (hid : channel'.id = channel.id) :
    channel.id ∉ Chat.slots ∧ Good (chat.update channel' ref) online ∧
      (chat.update channel' ref).privateChannels = chat.privateChannels := by
  have hslot : channel.id ∉ Chat.slots :=
    (hgood.elsewhere hfind).resolve_right (hne channel.id)
  refine ⟨hslot, hgood.update hne (hid ▸ hslot) fun id hid' href => ?_,
    privateChannels_update hne⟩
  subst href
  cases hfind.symm.trans (hgood.normal hid')

/-- The player opens a channel, and gets a window for it. -/
theorem opens {onJoin : Bool} {opened : ChatChannel} (hgood : Good chat online)
    (hguid : player.guid ∈ online)
    (h : chat.addUserToChannel player id canJoin onJoin = (chat', mails, some opened)) :
    Good chat' online ∧ Shows chat chat' (mails ++ [(player.guid,
      Message.channel opened.id opened.name (if opened.publicChannel then ∅ else opened.users)
        opened.invites)]) := by
  rcases addUserToChannel_cases h with hnone | ⟨ref, channel, href, hfind, channel', hadd, rfl, heq⟩
  · cases hnone
  · obtain rfl := Option.some.inj heq
    obtain ⟨hnot, rfl, rfl⟩ := addUser_eq_some hadd
    obtain ⟨found, hfound, hprivate⟩ := find_of_getChannel href
    obtain rfl := Option.some.inj (hfind.symm.trans hfound)
    by_cases hne : ∀ i, ref ≠ .private_ i
    · -- The window is not that of a private channel.
      let joined : ChatChannel := { channel with users := insert player.guid channel.users }
      obtain ⟨hid, hgood', hsame⟩ := hgood.update_of_find hfind hne (show joined.id = _ from rfl)
      refine ⟨hgood', Silent.shows ?_ hsame⟩
      refine Silent.append ?_ fun i hi u window => ?_
      · split
        · exact silent_nil
        · exact silent_of_notMem hid
      · have hother : channel.id ≠ i := fun h => hid (h ▸ hi)
        simp [receive, Message.show, hother]
    · obtain ⟨i, rfl⟩ := not_forall_not.1 hne
      obtain ⟨rfl, hinvited⟩ := hprivate i rfl
      obtain ⟨-, -, hpublic⟩ := hgood.numbered hfind
      refine ⟨good_addUser hgood hguid hfind hinvited, ?_⟩
      simp only [if_neg (Bool.not_eq_true _ ▸ hpublic : ¬ channel.publicChannel = true)]
      refine shows_addUser hgood hfind fun i window => ?_
      rw [Message.show]

theorem Shows.trans {chat'' : Chat} (h : Shows chat chat' mails)
    (h' : Shows chat' chat'' mails') : Shows chat chat'' (mails ++ mails') := by
  intro id hid u
  rw [receive_append, h id hid, h' id hid]

/-- A player who owns no private channel gets one, with a number that is free. -/
theorem createChannel_private
    (h : chat.createChannel player CHANNEL_PRIVATE true = (chat', some ref)) :
    ∃ i ∈ Chat.slots, chat.privateChannels.lookup i = none ∧
      chat.getPrivateChannel player.guid = none ∧ ref = .private_ i ∧
      chat' = chat.update
        { id := i, name := player.name ++ "'s Channel", owner := player.guid } (.private_ i) := by
  rw [Chat.createChannel] at h
  split at h
  case isTrue => cases (Prod.mk.inj h).2
  case isFalse =>
    rw [if_neg (by decide), if_neg (by decide), if_pos rfl] at h
    split at h
    case isTrue => cases (Prod.mk.inj h).2
    case isFalse hmay =>
      split at h
      case h_1 => cases (Prod.mk.inj h).2
      case h_2 i hi =>
        obtain ⟨rfl, href⟩ := Prod.mk.inj h
        have hfree := List.find?_some hi
        refine ⟨i, List.mem_of_find?_eq_some hi, Option.isNone_iff_eq_none.1 hfree, ?_,
          (Option.some.inj href).symm, rfl⟩
        rw [Bool.or_eq_true, not_or] at hmay
        exact Option.not_isSome_iff_eq_none.1 hmay.2

/-- A new private channel has its owner as the first user. -/
theorem creates (hgood : Good chat online) (hguid : player.guid ∈ online)
    (h : chat.createChannel player CHANNEL_PRIVATE true = (chat', some ref))
    (hadd : ((chat'.find ref).bind fun channel => channel.addUser player.guid true) =
      some (channel, mails)) :
    Good (chat'.update channel ref) online ∧
      Shows chat (chat'.update channel ref)
        (mails ++ [(player.guid, Message.createPrivateChannel channel.id channel.name)]) := by
  obtain ⟨i, hslot, hfree, hnone, rfl, rfl⟩ := createChannel_private h
  let new : ChatChannel :=
    { id := i, name := player.name ++ "'s Channel", owner := player.guid }
  have hfind : (chat.update new (.private_ i)).privateChannels.lookup i = some new := by
    rw [lookup_update_private, if_pos rfl]
  have hgood' : Good (chat.update new (.private_ i)) online := by
    refine hgood.update_private hslot rfl rfl (fun j d hd heq => ?_)
      (fun u hu => absurd hu (Finset.notMem_empty u))
      ⟨hguid, Finset.empty_subset _, Finset.empty_subset _⟩
    exact absurd heq (getPrivateChannel_eq_none hnone hd)
  have hempty : Shows chat (chat.update new (.private_ i)) [] := by
    intro id _ u
    rw [receive_nil, lookup_update_private]
    split
    case isTrue heq => rw [heq, hfree, shown_some, if_neg (Finset.notMem_empty u)]; rfl
    case isFalse => rfl
  obtain ⟨found, hfound, hadd⟩ := Option.bind_eq_some_iff.1 hadd
  obtain rfl : new = found := Option.some.inj (hfind.symm.trans hfound)
  obtain ⟨-, rfl, rfl⟩ := addUser_eq_some hadd
  have hinvited : new.isInvited player.guid := isInvited_iff.2 (.inl rfl)
  refine ⟨good_addUser hgood' hguid hfind hinvited, hempty.trans ?_⟩
  refine shows_addUser hgood' hfind fun i window => ?_
  rw [Message.show]
  rfl

theorem Good.mono {online' : Finset ℕ} (h : Good chat online) (hle : online ⊆ online') :
    Good chat online' where
  numbered := h.numbered
  elsewhere := h.elsewhere
  normal := h.normal
  owner := h.owner
  invited := h.invited
  online hi :=
    have ⟨howner, husers, hinvites⟩ := h.online hi
    ⟨hle howner, husers.trans hle, hinvites.trans hle⟩

theorem good_withoutUser (hgood : Good chat online)
    (hc : chat.privateChannels.lookup id = some channel) :
    Good (chat.update (channel.withoutUser guid).1 (.private_ id)) online := by
  obtain ⟨hslot, hid, hpublic⟩ := hgood.numbered hc
  obtain ⟨howner, husers, hinvites⟩ := hgood.online hc
  rw [withoutUser_users]
  refine hgood.update_private hslot hid hpublic (fun j d hd heq => hgood.owner hd hc heq)
    (fun u hu => hgood.invited hc u (Finset.mem_of_mem_erase hu))
    ⟨howner, (Finset.erase_subset _ _).trans husers, hinvites⟩

/-- The players see the windows, but for the one who has closed one. -/
def closed (guid channelId : ℕ) (chat : Chat) (id u : ℕ) : Option (Finset ℕ) :=
  if u = guid ∧ id = channelId then none else shown (chat.privateChannels.lookup id) u

theorem closed_of_not_user
    (h : shown (chat.privateChannels.lookup id) guid = none) {i : ℕ} :
    closed guid id chat i u = shown (chat.privateChannels.lookup i) u := by
  rw [closed]
  split
  case isTrue heq => rw [heq.1, heq.2, h]
  case isFalse => rfl

/-- The messages when a user leaves a private channel. -/
theorem receive_leave (hgood : Good chat online)
    (hc : chat.privateChannels.lookup id = some channel) {i : ℕ} :
    receive u i (closed guid id chat i u) (channel.withoutUser guid).2 =
      shown ((chat.update (channel.withoutUser guid).1
        (.private_ id)).privateChannels.lookup i) u := by
  obtain ⟨-, hid, hpublic⟩ := hgood.numbered hc
  rw [lookup_update_private, closed]
  by_cases hi : i = id
  · subst hi
    rw [if_pos rfl]
    by_cases hu : u = guid
    · -- The one who leaves has closed the window.
      subst hu
      rw [if_pos ⟨rfl, rfl⟩, receive_withoutUser_self, withoutUser_users, shown_some,
        if_neg (Finset.notMem_erase u channel.users)]
    · rw [if_neg fun h => hu h.1, hc, receive_withoutUser hid hpublic hu]
  · rw [if_neg hi, if_neg fun h => hi h.2,
      receive_withoutUser_of_ne fun h => hi (hid.symm.trans h).symm]

/-- A private channel is closed for all its users. -/
theorem receive_close (hid : channel.id = id) :
    receive u id (shown (some channel) u) channel.closeChannel = none := by
  rw [ChatChannel.closeChannel, receive_sendToUsers, shown_some]
  split
  case isTrue => rw [Message.show, if_pos hid]
  case isFalse => rfl

theorem receive_close_of_ne (hne : channel.id ≠ id) :
    receive u id window channel.closeChannel = window := by
  rw [ChatChannel.closeChannel, receive_sendToUsers, Message.show, if_neg hne, ite_self]

theorem lookup_erase_private {i j : ℕ} :
    ({ chat with privateChannels := chat.privateChannels.erase i } :
      Chat).privateChannels.lookup j = if j = i then none else chat.privateChannels.lookup j :=
  SortedMap.lookup_erase i _ j

/-- A channel is deleted, and its users are told. -/
theorem deletes (hgood : Good chat online)
    (h : chat.deleteChannel player id = (chat', mails)) :
    Good chat' online ∧ Shows chat chat' mails := by
  rw [Chat.deleteChannel] at h
  split at h
  case isTrue =>
    split at h
    case h_1 =>
      obtain ⟨rfl, rfl⟩ := Prod.mk.inj h
      exact ⟨hgood, silent_nil.shows rfl⟩
    case h_2 guild _ =>
      obtain ⟨rfl, rfl⟩ := Prod.mk.inj h
      refine ⟨hgood.of_le (fun _ _ hi => hi) (fun ref c hc => ?_) rfl, silent_nil.shows rfl⟩
      cases ref with
      | guild g =>
        rw [Chat.find, SortedMap.lookup_erase, Option.ite_none_left_eq_some] at hc
        exact hc.2
      | _ => exact hc
  case isFalse =>
    split at h
    case isTrue =>
      split at h
      case h_1 =>
        obtain ⟨rfl, rfl⟩ := Prod.mk.inj h
        exact ⟨hgood, silent_nil.shows rfl⟩
      case h_2 party _ =>
        obtain ⟨rfl, rfl⟩ := Prod.mk.inj h
        refine ⟨hgood.of_le (fun _ _ hi => hi) (fun ref c hc => ?_) rfl, silent_nil.shows rfl⟩
        cases ref with
        | party p =>
          rw [Chat.find, SortedMap.lookup_erase, Option.ite_none_left_eq_some] at hc
          exact hc.2
        | _ => exact hc
    case isFalse =>
      split at h
      case h_1 =>
        obtain ⟨rfl, rfl⟩ := Prod.mk.inj h
        exact ⟨hgood, silent_nil.shows rfl⟩
      case h_2 channel hc =>
        obtain ⟨rfl, rfl⟩ := Prod.mk.inj h
        -- Only a private channel closes windows, by the number it is stored under.
        obtain ⟨-, hid, -⟩ := hgood.numbered hc
        constructor
        · refine hgood.of_le (fun i c hi => ?_) (fun ref c hi => ?_) rfl
          · rw [lookup_erase_private, Option.ite_none_left_eq_some] at hi
            exact hi.2
          · cases ref with
            | private_ i =>
              rw [Chat.find, SortedMap.lookup_erase, Option.ite_none_left_eq_some] at hi
              exact hi.2
            | _ => exact hi
        · intro i _ u
          rw [lookup_erase_private]
          by_cases hi : i = id
          · rw [if_pos hi, hi, hc, receive_close hid]
            rfl
          · rw [if_neg hi, receive_close_of_ne fun h => hi (hid.symm.trans h).symm]

/-- The user is removed from the channel, or nothing happens. -/
theorem removeUserFromChannel_cases
    (h : chat.removeUserFromChannel player id canJoin = (chat', mails)) :
    (chat' = chat ∧ mails = [] ∧ ∀ ref channel, chat.getChannel player id canJoin = some ref →
        chat.find ref = some channel → player.guid ∉ channel.users) ∨
      ∃ ref channel, chat.getChannel player id canJoin = some ref ∧
        chat.find ref = some channel ∧
        ∃ chat₁ mails₁, chat₁ = chat.update (channel.withoutUser player.guid).1 ref ∧
          ((chat' = chat₁ ∧ mails₁ = []) ∨ chat₁.deleteChannel player id = (chat', mails₁)) ∧
          mails = (channel.withoutUser player.guid).2 ++ mails₁ := by
  rw [Chat.removeUserFromChannel] at h
  split at h
  case h_1 hnone =>
    obtain ⟨rfl, rfl⟩ := Prod.mk.inj h
    refine .inl ⟨rfl, rfl, fun ref channel href hfind => ?_⟩
    rw [href, Option.bind_some, hfind] at hnone
    cases hnone
  case h_2 ref channel hfound =>
    obtain ⟨ref', href, hfind⟩ := Option.bind_eq_some_iff.1 hfound
    obtain ⟨found, hmap, heq⟩ := Option.map_eq_some_iff.1 hfind
    obtain ⟨rfl, rfl⟩ := Prod.mk.inj heq
    split at h
    case h_1 hremove =>
      obtain ⟨rfl, rfl⟩ := Prod.mk.inj h
      refine .inl ⟨rfl, rfl, fun ref channel href' hfind' => ?_⟩
      obtain rfl := Option.some.inj (href.symm.trans href')
      obtain rfl := Option.some.inj (hmap.symm.trans hfind')
      rw [ChatChannel.removeUser] at hremove
      split at hremove
      case isTrue hnot => exact hnot
      case isFalse => cases hremove
    case h_2 channel' left hremove =>
      obtain ⟨-, hwithout⟩ := removeUser_eq_some hremove
      refine .inr ⟨ref', found, href, hmap, chat.update channel' ref', ?_⟩
      rw [hwithout]
      dsimp only at h
      split at h
      case isTrue =>
        obtain ⟨rfl, rfl⟩ := Prod.mk.inj h
        exact ⟨_, rfl, .inr rfl, rfl⟩
      case isFalse =>
        obtain ⟨rfl, rfl⟩ := Prod.mk.inj h
        exact ⟨[], rfl, .inl ⟨rfl, rfl⟩, (List.append_nil _).symm⟩

/-- A player whose window is that of another kind of channel is no user of a private one. -/
theorem shown_of_ref (hgood : Good chat online)
    (hnot : ∀ ref channel, chat.getChannel player id canJoin = some ref →
      chat.find ref = some channel → ref = .private_ id → player.guid ∉ channel.users) :
    shown (chat.privateChannels.lookup id) player.guid = none := by
  rcases hc : chat.privateChannels.lookup id with _ | channel
  · rfl
  · rw [shown_some]
    refine if_neg fun hmem => ?_
    have hinvited := hgood.invited hc _ hmem
    have href : chat.getChannel player id canJoin = some (.private_ id) :=
      getChannel_private hgood (hgood.numbered hc).1 hc hinvited
    exact hnot _ channel href hc rfl hmem

/-- The player leaves a channel, whose window she has closed. -/
theorem closes (hgood : Good chat online)
    (h : chat.removeUserFromChannel player id canJoin = (chat', mails)) :
    Good chat' online ∧ ∀ i ∈ Chat.slots, ∀ u,
      receive u i (closed player.guid id chat i u) mails =
        shown (chat'.privateChannels.lookup i) u := by
  rcases removeUserFromChannel_cases h with
    ⟨rfl, rfl, hnot⟩ | ⟨ref, channel, href, hfind, chat₁, mails₁, rfl, hdelete, rfl⟩
  · have hshown := shown_of_ref hgood fun ref channel href hfind _ => hnot ref channel href hfind
    exact ⟨hgood, fun i _ u => closed_of_not_user hshown⟩
  · -- First she leaves, then her own channel is deleted.
    have hleave : Good (chat.update (channel.withoutUser player.guid).1 ref) online ∧
        ∀ i ∈ Chat.slots, ∀ u,
          receive u i (closed player.guid id chat i u) (channel.withoutUser player.guid).2 =
            shown ((chat.update (channel.withoutUser player.guid).1
              ref).privateChannels.lookup i) u := by
      by_cases hne : ∀ i, ref ≠ .private_ i
      · have hid : (channel.withoutUser player.guid).1.id = channel.id := by
          rw [withoutUser_users]
        obtain ⟨hslot, hgood', hsame⟩ := hgood.update_of_find hfind hne hid
        have hshown := shown_of_ref hgood fun ref' channel'
            (href' : chat.getChannel player id canJoin = some ref') _ hprivate => by
          rw [href] at href'
          exact absurd (Option.some.inj href' ▸ hprivate) (hne id)
        refine ⟨hgood', fun i hi u => ?_⟩
        rw [silent_withoutUser hslot i hi, hsame, closed_of_not_user hshown]
      · obtain ⟨i, rfl⟩ := not_forall_not.1 hne
        obtain ⟨found, -, hprivate⟩ := find_of_getChannel href
        obtain ⟨rfl, -⟩ := hprivate i rfl
        exact ⟨good_withoutUser hgood hfind, fun j _ u => receive_leave hgood hfind⟩
    obtain ⟨hgood', hshows⟩ := hleave
    rcases hdelete with ⟨rfl, rfl⟩ | hdelete
    · rw [List.append_nil]
      exact ⟨hgood', hshows⟩
    · obtain ⟨hgood'', hdeleted⟩ := deletes hgood' hdelete
      refine ⟨hgood'', fun i hi u => ?_⟩
      rw [receive_append, hshows i hi, hdeleted i hi]

/-! ## Leaving all channels -/

/-- The messages of the other channels do nothing to the window. -/
theorem receive_flatMap_of_notMem {l : List (ℕ × ChatChannel)} {f : ℕ × ChatChannel → List Mail}
    (h : ∀ e ∈ l, ∀ window, receive u id window (f e) = window) :
    receive u id window (l.flatMap f) = window := by
  induction l with
  | nil => rfl
  | cons e l ih =>
    rw [List.flatMap_cons, receive_append, h e List.mem_cons_self]
    exact ih fun e he => h e (List.mem_cons_of_mem _ he)

/-- Of a map of channels, only the one with the number does something to the window. -/
theorem receive_flatMap {channels : ChannelMap} {f : ℕ × ChatChannel → List Mail}
    (hid : channels.lookup id = some channel)
    (h : ∀ e ∈ channels.entries, e.1 ≠ id → ∀ window, receive u id window (f e) = window) :
    receive u id window (channels.entries.flatMap f) = receive u id window (f (id, channel)) := by
  obtain ⟨l₁, l₂, hl⟩ := List.append_of_mem (SortedMap.mem_entries.2 hid)
  have hsorted := channels.sorted
  rw [hl, List.pairwise_append, List.pairwise_cons] at hsorted
  obtain ⟨-, ⟨hafter, -⟩, hbefore⟩ := hsorted
  rw [hl, List.flatMap_append, List.flatMap_cons, receive_append, receive_append]
  rw [receive_flatMap_of_notMem (l := l₁), receive_flatMap_of_notMem (l := l₂)]
  · refine fun e he => h e (hl ▸ List.mem_append_right _ (List.mem_cons_of_mem _ he)) ?_
    exact (hafter e he).ne'
  · refine fun e he => h e (hl ▸ List.mem_append_left _ he) ?_
    exact (hbefore e he _ List.mem_cons_self).ne

/-- What is left of a private channel. -/
theorem leavePrivate_fst : (Chat.leavePrivate guid channel).1 =
    if channel.owner = guid then none
    else some { channel with
      invites := channel.invites.erase guid, users := channel.users.erase guid } := by
  rw [Chat.leavePrivate]
  simp only [withoutUser_users, ChatChannel.removeInvite]
  split <;> rfl

theorem receive_leavePrivate_of_ne (hne : channel.id ≠ id) :
    receive u id window (Chat.leavePrivate guid channel).2 = window := by
  have hne' : (channel.removeInvite guid).id ≠ id := hne
  rw [Chat.leavePrivate]
  dsimp only
  split
  · rw [receive_append, receive_withoutUser_of_ne hne', receive_close_of_ne]
    rw [withoutUser_users]
    exact hne
  · exact receive_withoutUser_of_ne hne'

/-- The other users are told that one has left, or that the channel is closed. -/
theorem receive_leavePrivate (hid : channel.id = id) (hpublic : channel.publicChannel = false)
    (hu : u ≠ guid) :
    receive u id (shown (some channel) u) (Chat.leavePrivate guid channel).2 =
      shown (Chat.leavePrivate guid channel).1 u := by
  have hleave : receive u id (shown (some channel) u)
      ((channel.removeInvite guid).withoutUser guid).2 =
        shown (some ((channel.removeInvite guid).withoutUser guid).1) u := by
    have hid' : (channel.removeInvite guid).id = id := hid
    exact receive_withoutUser hid' hpublic hu
  rw [Chat.leavePrivate]
  dsimp only
  split
  · rw [receive_append, hleave, receive_close]
    · rfl
    · rw [withoutUser_users]
      exact hid
  · exact hleave

theorem lookup_removeUserFromChannels {channels : ChannelMap} :
    (Chat.removeUserFromChannels channels guid).1.lookup id =
      (channels.lookup id).map fun channel => (channel.withoutUser guid).1 := by
  rw [Chat.removeUserFromChannels, SortedMap.lookup_filterMap, Option.map_eq_bind]
  rfl

theorem silent_removeUserFromChannels {channels : ChannelMap}
    (h : ∀ id channel, channels.lookup id = some channel → channel.id ∉ Chat.slots) :
    Silent (Chat.removeUserFromChannels channels guid).2 := by
  intro id hid u window
  refine receive_flatMap_of_notMem fun e he window => ?_
  exact silent_withoutUser (h e.1 e.2 (SortedMap.mem_entries.1 he)) id hid u window

theorem removeUserFromAllChannels_eq : chat.removeUserFromAllChannels guid =
    ({ normalChannels := (Chat.removeUserFromChannels chat.normalChannels guid).1
       partyChannels := (Chat.removeUserFromChannels chat.partyChannels guid).1
       guildChannels := (Chat.removeUserFromChannels chat.guildChannels guid).1
       privateChannels := chat.privateChannels.filterMap fun channel =>
         (Chat.leavePrivate guid channel).1 },
      (Chat.removeUserFromChannels chat.normalChannels guid).2 ++
        (Chat.removeUserFromChannels chat.partyChannels guid).2 ++
        (Chat.removeUserFromChannels chat.guildChannels guid).2 ++
        chat.privateChannels.entries.flatMap fun e => (Chat.leavePrivate guid e.2).2) := rfl

/-- The channel has the same number as before. -/
theorem elsewhere_removeUser {channels : ChannelMap}
    (h : ∀ c, channels.lookup id = some c → c.id ∉ Chat.slots)
    (hc : (Chat.removeUserFromChannels channels guid).1.lookup id = some channel) :
    channel.id ∉ Chat.slots := by
  rw [lookup_removeUserFromChannels] at hc
  obtain ⟨c, hfound, rfl⟩ := Option.map_eq_some_iff.1 hc
  rw [withoutUser_users]
  exact h c hfound

/-- A player leaves all channels, and takes her own private channel with her. -/
theorem leavesAll (hgood : Good chat online)
    (h : chat.removeUserFromAllChannels guid = (chat', mails)) :
    Good chat' (online.erase guid) ∧ ∀ id ∈ Chat.slots, ∀ u ≠ guid,
      receive u id (shown (chat.privateChannels.lookup id) u) mails =
        shown (chat'.privateChannels.lookup id) u := by
  rw [removeUserFromAllChannels_eq] at h
  obtain ⟨rfl, rfl⟩ := Prod.mk.inj h
  have hnormal (i : ℕ) (c : ChatChannel) (hc : chat.normalChannels.lookup i = some c) :
      c.id ∉ Chat.slots :=
    (hgood.elsewhere (show chat.find (.normal i) = some c from hc)).resolve_right
      fun h => by cases h
  have hparty (i : ℕ) (c : ChatChannel) (hc : chat.partyChannels.lookup i = some c) :
      c.id ∉ Chat.slots :=
    (hgood.elsewhere (show chat.find (.party i) = some c from hc)).resolve_right
      fun h => by cases h
  have hguild (i : ℕ) (c : ChatChannel) (hc : chat.guildChannels.lookup i = some c) :
      c.id ∉ Chat.slots :=
    (hgood.elsewhere (show chat.find (.guild i) = some c from hc)).resolve_right
      fun h => by cases h
  -- A private channel that remains is not the leaving player's own.
  have hleft {i : ℕ} {c' : ChatChannel}
      (hi : (chat.privateChannels.filterMap fun c => (Chat.leavePrivate guid c).1).lookup i =
        some c') : ∃ c, chat.privateChannels.lookup i = some c ∧ c.owner ≠ guid ∧
          c' = { c with invites := c.invites.erase guid, users := c.users.erase guid } := by
    rw [SortedMap.lookup_filterMap] at hi
    obtain ⟨c, hc, hi⟩ := Option.bind_eq_some_iff.1 hi
    rw [leavePrivate_fst, Option.ite_none_left_eq_some] at hi
    exact ⟨c, hc, hi.1, (Option.some.inj hi.2).symm⟩
  constructor
  · constructor
    · intro i c' hi
      obtain ⟨c, hc, -, rfl⟩ := hleft hi
      obtain ⟨hslot, hid, hpublic⟩ := hgood.numbered hc
      exact ⟨hslot, hid, hpublic⟩
    · intro ref c' hc'
      cases ref with
      | private_ i =>
        obtain ⟨c, hc, -, rfl⟩ := hleft hc'
        obtain ⟨-, hid, -⟩ := hgood.numbered hc
        exact .inr (congrArg Ref.private_ hid.symm)
      | normal i => exact .inl (elsewhere_removeUser (hnormal i) hc')
      | party i => exact .inl (elsewhere_removeUser (hparty i) hc')
      | guild i => exact .inl (elsewhere_removeUser (hguild i) hc')
    · intro i hi
      rw [lookup_removeUserFromChannels, hgood.normal hi, Option.map_none]
    · intro i j c' d' hi hj heq
      obtain ⟨c, hc, -, rfl⟩ := hleft hi
      obtain ⟨d, hd, -, rfl⟩ := hleft hj
      exact hgood.owner hc hd heq
    · intro i c' hi u hu
      obtain ⟨c, hc, howner, rfl⟩ := hleft hi
      obtain ⟨hne, hu⟩ := Finset.mem_erase.1 hu
      have hinvited := isInvited_iff.1 (hgood.invited hc u hu)
      exact isInvited_iff.2 (hinvited.imp_right fun h => Finset.mem_erase.2 ⟨hne, h⟩)
    · intro i c' hi
      obtain ⟨c, hc, howner, rfl⟩ := hleft hi
      obtain ⟨honline, husers, hinvites⟩ := hgood.online hc
      exact ⟨Finset.mem_erase.2 ⟨howner, honline⟩, Finset.erase_subset_erase _ husers,
        Finset.erase_subset_erase _ hinvites⟩
  · intro id hid u hu
    -- The mails of the other maps are about numbers that no private channel has.
    have hother : Silent ((Chat.removeUserFromChannels chat.normalChannels guid).2 ++
        (Chat.removeUserFromChannels chat.partyChannels guid).2 ++
        (Chat.removeUserFromChannels chat.guildChannels guid).2) := by
      exact ((silent_removeUserFromChannels hnormal).append
        (silent_removeUserFromChannels hparty)).append (silent_removeUserFromChannels hguild)
    have hothers (e : ℕ × ChatChannel) (he : e ∈ chat.privateChannels.entries) (hne : e.1 ≠ id)
        (window : Option (Finset ℕ)) :
        receive u id window (Chat.leavePrivate guid e.2).2 = window := by
      obtain ⟨-, hnumber, -⟩ := hgood.numbered (SortedMap.mem_entries.1 he)
      exact receive_leavePrivate_of_ne (hnumber ▸ hne)
    rw [receive_append, hother id hid, SortedMap.lookup_filterMap]
    rcases hc : chat.privateChannels.lookup id with _ | channel
    · refine receive_flatMap_of_notMem fun e he window => hothers e he ?_ window
      rintro rfl
      cases hc.symm.trans (SortedMap.mem_entries.1 he)
    · obtain ⟨-, hnumber, hpublic⟩ := hgood.numbered hc
      rw [receive_flatMap hc hothers, receive_leavePrivate hnumber hpublic hu]
      rfl

/-! ## The owner's operations -/

/-- A message of the owner's to one player, or an event that changes no windows. -/
theorem silent_singleton (h : ∀ id ∈ Chat.slots, ∀ window, message.show guid id window = window) :
    Silent [(guid, message)] := by
  intro id hid u window
  rw [receive_cons, receive_nil]
  split
  case isTrue heq => exact heq ▸ h id hid window
  case isFalse => rfl

theorem silent_invitePlayer {invitePlayer : Player} :
    Silent (channel.invitePlayer player invitePlayer).2 := by
  have htext (guid : ℕ) (text : String) : Silent [(guid, Message.textMessage text)] :=
    silent_singleton fun _ _ _ => rfl
  rw [ChatChannel.invitePlayer]
  split
  · exact silent_nil
  · refine ((htext _ _).append (htext _ _)).append ?_
    exact silent_sendToUsers fun _ _ _ _ => rfl

/-- The owner's channel is changed. -/
theorem Good.change (hgood : Good chat online)
    (hc : chat.privateChannels.lookup id = some channel) {channel' : ChatChannel}
    (hsame : channel'.id = channel.id ∧ channel'.publicChannel = channel.publicChannel ∧
      channel'.owner = channel.owner)
    (husers : channel'.users ⊆ online) (hinvites : channel'.invites ⊆ online)
    (hinvited : ∀ u ∈ channel'.users, channel'.isInvited u) :
    Good (chat.update channel' (.private_ id)) online := by
  obtain ⟨hid, hpublic, howner⟩ := hsame
  obtain ⟨hslot, hnumber, hpublic'⟩ := hgood.numbered hc
  refine hgood.update_private hslot (hid.trans hnumber) (hpublic.trans hpublic')
    (fun j d hd heq => hgood.owner hd hc (heq.trans howner)) hinvited
    ⟨howner ▸ (hgood.online hc).1, husers, hinvites⟩

theorem invites (hgood : Good chat online) {other : Player} (hother : other.guid ∈ online)
    (hc : chat.privateChannels.lookup id = some channel) :
    Good (chat.update (channel.invitePlayer player other).1 (.private_ id)) online ∧
      Shows chat (chat.update (channel.invitePlayer player other).1 (.private_ id))
        (channel.invitePlayer player other).2 := by
  obtain ⟨-, husers, hinvites⟩ := hgood.online hc
  have hkeeps : (channel.invitePlayer player other).1.users = channel.users := by
    rw [ChatChannel.invitePlayer]
    split <;> rfl
  constructor
  · rw [ChatChannel.invitePlayer]
    split
    · exact hgood.change hc ⟨rfl, rfl, rfl⟩ husers hinvites (hgood.invited hc)
    · refine hgood.change hc ⟨rfl, rfl, rfl⟩ husers (Finset.insert_subset hother hinvites) ?_
      intro u hu
      have hinvited := isInvited_iff.1 (hgood.invited hc u hu)
      exact isInvited_iff.2 (hinvited.imp_right Finset.mem_insert_of_mem)
  · intro i hi u
    rw [silent_invitePlayer i hi, lookup_update_private]
    split
    case isTrue heq => rw [heq, hc, shown_some, shown_some, hkeeps]
    case isFalse => rfl

/-- The one who is excluded is no longer invited, leaves the channel, and her window is closed. -/
theorem excludes (hgood : Good chat online) {other : Player}
    (hc : chat.privateChannels.lookup id = some channel) :
    Good (chat.update (channel.excludePlayer player other).1 (.private_ id)) online ∧
      Shows chat (chat.update (channel.excludePlayer player other).1 (.private_ id))
        (channel.excludePlayer player other).2 := by
  obtain ⟨hslot, hnumber, hpublic⟩ := hgood.numbered hc
  obtain ⟨-, husers, hinvites⟩ := hgood.online hc
  rw [ChatChannel.excludePlayer]
  split
  case isTrue =>
    refine ⟨hgood.change hc ⟨rfl, rfl, rfl⟩ husers hinvites (hgood.invited hc), ?_⟩
    intro i _ u
    rw [receive_nil, lookup_update_private]
    split
    case isTrue heq => rw [heq, hc]
    case isFalse => rfl
  case isFalse =>
    -- The channel without the invitation is told of like any other.
    obtain ⟨removed, hremoved⟩ : ∃ c, c = channel.removeInvite other.guid := ⟨_, rfl⟩
    have husers' : removed.users = channel.users := by rw [hremoved]; rfl
    have hid : removed.id = id := by rw [hremoved]; exact hnumber
    have hpublic' : removed.publicChannel = false := by rw [hremoved]; exact hpublic
    rw [← hremoved]
    constructor
    · have hfields : (removed.withoutUser other.guid).1 =
          { channel.removeInvite other.guid with users := channel.users.erase other.guid } := by
        rw [withoutUser_users, hremoved]
        rfl
      dsimp only
      rw [hfields]
      refine hgood.change hc ⟨rfl, rfl, rfl⟩ ((Finset.erase_subset _ _).trans husers)
        ((Finset.erase_subset _ _).trans hinvites) fun u hu => ?_
      obtain ⟨hne, hu⟩ := Finset.mem_erase.1 hu
      have hinvited := isInvited_iff.1 (hgood.invited hc u hu)
      exact isInvited_iff.2 (hinvited.imp_right fun h => Finset.mem_erase.2 ⟨hne, h⟩)
    · intro i hi u
      have hid' : (removed.withoutUser other.guid).1.id = id := by rw [withoutUser_users, hid]
      have hexclude : Silent (sendToUsers (removed.withoutUser other.guid).1.users
          (.channelEvent (removed.withoutUser other.guid).1.id other.guid .exclude)) :=
        silent_sendToUsers fun _ _ _ _ => rfl
      dsimp only
      rw [receive_append, hexclude i hi, receive_append, receive_cons, receive_cons, receive_nil,
        lookup_update_private]
      simp only [Message.show, ite_self, hid']
      by_cases hi : id = i
      · subst hi
        have hsame : shown (some channel) u = shown (some removed) u := by
          rw [shown_some, shown_some, husers']
        rw [if_pos rfl, if_pos rfl, hc]
        by_cases hu : other.guid = u
        · rw [if_pos hu, withoutUser_users, shown_some,
            if_neg fun h => (Finset.mem_erase.1 h).1 hu.symm]
        · rw [if_neg hu, hsame]
          exact receive_withoutUser hid hpublic' (Ne.symm hu)
      · rw [if_neg hi, if_neg (Ne.symm hi), ite_self]
        exact receive_withoutUser_of_ne fun h => hi (hid.symm.trans h)

/-! ## The list of channels -/

/-- The channel of a guild or of a party is created. -/
theorem Good.create (hgood : Good chat online) (hid : id = CHANNEL_GUILD ∨ id = CHANNEL_PARTY) :
    Good (chat.createChannel player id canJoin).1 online ∧
      (chat.createChannel player id canJoin).1.privateChannels = chat.privateChannels := by
  have hslot : id ∉ Chat.slots := by
    rw [mem_slots]
    rcases hid with rfl | rfl <;> decide
  rw [Chat.createChannel]
  split
  · exact ⟨hgood, rfl⟩
  · split
    case isTrue =>
      split
      · exact ⟨hgood, rfl⟩
      · next guild _ =>
        have hne : ∀ i, Ref.guild guild.id ≠ .private_ i := fun _ h => by cases h
        exact ⟨hgood.update hne hslot (fun _ _ h => by cases h), rfl⟩
    case isFalse hguild =>
      rw [if_pos (hid.resolve_left hguild)]
      split
      · exact ⟨hgood, rfl⟩
      · next party _ =>
        have hne : ∀ i, Ref.party party ≠ .private_ i := fun _ h => by cases h
        exact ⟨hgood.update hne hslot (fun _ _ h => by cases h), rfl⟩

theorem Good.listOwn (hgood : Good chat online) (player : Player)
    (hid : id = CHANNEL_GUILD ∨ id = CHANNEL_PARTY) :
    Good (chat.listOwn player id).1 online ∧
      (chat.listOwn player id).1.privateChannels = chat.privateChannels := by
  rw [Chat.listOwn]
  split
  · exact ⟨hgood, rfl⟩
  · exact hgood.create hid

theorem Good.list (hgood : Good chat online) (player : Player) (mayJoin : ℕ → Bool) :
    Good (chat.getChannelList player mayJoin).1 online ∧
      (chat.getChannelList player mayJoin).1.privateChannels = chat.privateChannels := by
  rw [Chat.getChannelList]
  have hguild : Good (if player.guild.isSome then chat.listOwn player CHANNEL_GUILD
        else (chat, [])).1 online ∧
      (if player.guild.isSome then chat.listOwn player CHANNEL_GUILD
        else (chat, [])).1.privateChannels = chat.privateChannels := by
    split
    · exact hgood.listOwn player (.inl rfl)
    · exact ⟨hgood, rfl⟩
  obtain ⟨hgood₁, hsame₁⟩ := hguild
  dsimp only
  split
  · obtain ⟨hgood₂, hsame₂⟩ := hgood₁.listOwn player (.inr rfl)
    exact ⟨hgood₂, hsame₂.trans hsame₁⟩
  · exact ⟨hgood₁, hsame₁⟩

/-! ## Runs -/

/-- The channels are good, and the windows show their users. -/
structure Invariant (s : State) : Prop where
  good : Good s.chat s.online
  connected : s.connected ⊆ s.online
  windows : ∀ u ∈ s.connected, ∀ id ∈ Chat.slots,
    s.windows u id = shown (s.chat.privateChannels.lookup id) u

variable {s : State}

theorem invariant_initial (h : Initial s) : Invariant s where
  good := by
    have hnone {id : ℕ} : s.chat.privateChannels.lookup id = none := h.private_ id
    constructor
    · intro id channel hc
      cases hnone.symm.trans hc
    · intro ref channel hc
      cases ref with
      | normal i =>
        obtain ⟨hslot, hid⟩ := h.normal i channel hc
        exact .inl (hid ▸ hslot)
      | private_ i => cases hnone.symm.trans hc
      | party i => cases (h.party i).symm.trans hc
      | guild i => cases (h.guild i).symm.trans hc
    · intro id hid
      rcases hc : s.chat.normalChannels.lookup id with _ | channel
      · rfl
      · exact absurd hid (h.normal id channel hc).1
    · intro i j c d hc
      cases hnone.symm.trans hc
    · intro i c hc
      cases hnone.symm.trans hc
    · intro i c hc
      cases hnone.symm.trans hc
  connected := by rw [h.connected]; exact Finset.empty_subset _
  windows u hu := by
    rw [h.connected] at hu
    exact absurd hu (Finset.notMem_empty u)

/-- The messages of an operation come to the clients. -/
theorem Invariant.deliver (h : Invariant s) (hgood : Good chat' s.online)
    (hshows : Shows s.chat chat' mails) :
    Invariant ({ s with chat := chat' }.deliver mails) where
  good := hgood
  connected := h.connected
  windows u hu id hid := by
    have hwindow : s.windows u id = shown (s.chat.privateChannels.lookup id) u :=
      h.windows u hu id hid
    have hu' : u ∈ s.connected := hu
    simp only [State.deliver]
    rw [if_pos hu', hwindow, hshows id hid]

/-- A player without open windows, who is in no channel. -/
theorem Invariant.withoutWindows {online connected : Finset ℕ} (hgood : Good chat' online)
    (hconnected : connected ⊆ online) {windows : ℕ → ℕ → Option (Finset ℕ)}
    (hwindows : ∀ u ∈ connected, u ≠ guid → ∀ id ∈ Chat.slots,
      windows u id = shown (chat'.privateChannels.lookup id) u)
    (hguid : guid ∈ connected → ∀ id ∈ Chat.slots,
      shown (chat'.privateChannels.lookup id) guid = none) :
    Invariant (State.withoutWindows ⟨chat', online, connected, windows⟩ guid) where
  good := hgood
  connected := hconnected
  windows u hu id hid := by
    simp only [State.withoutWindows]
    split
    case isTrue heq =>
      subst heq
      exact (hguid hu id hid).symm
    case isFalse hne => exact hwindows u hu hne id hid

/-- Who is not in the game is in no channel. -/
theorem Good.shown_of_notMem (h : Good chat online) (hguid : guid ∉ online) :
    shown (chat.privateChannels.lookup id) guid = none := by
  rcases hc : chat.privateChannels.lookup id with _ | channel
  · rfl
  · rw [shown_some]
    exact if_neg fun hmem => hguid ((h.online hc).2.1 hmem)

theorem Invariant.leaveAll (h : Invariant s) (guid : ℕ) :
    Good (leaveAll s guid).chat (s.online.erase guid) ∧
      (leaveAll s guid).online = s.online ∧ (leaveAll s guid).connected = s.connected ∧
      ∀ u ∈ s.connected, u ≠ guid → ∀ id ∈ Chat.slots, (ChatChannels.leaveAll s guid).windows u id =
        shown ((ChatChannels.leaveAll s guid).chat.privateChannels.lookup id) u := by
  rcases hremove : s.chat.removeUserFromAllChannels guid with ⟨chat', mails⟩
  obtain ⟨hgood, hshows⟩ := leavesAll h.good hremove
  have hleave : ChatChannels.leaveAll s guid = { s with chat := chat' }.deliver mails := by
    rw [ChatChannels.leaveAll, hremove]
  rw [hleave]
  refine ⟨hgood, rfl, rfl, fun u hu hne id hid => ?_⟩
  have hwindow := hshows id hid u hne
  rw [← h.windows u hu id hid] at hwindow
  exact (if_pos hu).trans hwindow

/-- The owner changes her channel. -/
theorem Invariant.changePrivateChannel (h : Invariant s) {other : Player}
    {change : ChatChannel → ChatChannel × List Mail}
    (hchange : ∀ id channel, other.guid ∈ s.online →
      s.chat.privateChannels.lookup id = some channel →
        Good (s.chat.update (change channel).1 (.private_ id)) s.online ∧
          Shows s.chat (s.chat.update (change channel).1 (.private_ id)) (change channel).2) :
    Invariant (changePrivateChannel s player other change) := by
  rw [ChatChannels.changePrivateChannel]
  split
  · exact h
  · next id channel hc =>
    split
    · exact h
    · next hother =>
      split
      · exact h
      · obtain ⟨hgood, hshows⟩ := hchange id channel (not_not.1 hother)
          (getPrivateChannel_eq_some hc).1
        exact h.deliver hgood hshows

/-- Every operation keeps the invariant. -/
theorem Invariant.step (h : Invariant s) (op : Op) : Invariant (step s op) := by
  cases op with
  | login guid =>
    rw [ChatChannels.step]
    split
    case isTrue => exact h
    case isFalse hguid =>
      refine .withoutWindows (h.good.mono (Finset.subset_insert _ _))
        (Finset.insert_subset_insert _ h.connected) (fun u hu hne => ?_)
        fun _ id _ => h.good.shown_of_notMem hguid
      exact h.windows u (Finset.mem_of_mem_insert_of_ne hu hne)
  | connect guid =>
    rw [ChatChannels.step]
    split
    case isTrue => exact h
    case isFalse hguid =>
      obtain ⟨hgood, honline, hconnected, hwindows⟩ := h.leaveAll guid
      have hmem := not_not.1 hguid
      refine .withoutWindows (honline ▸ hgood.mono (Finset.erase_subset _ _))
        (honline ▸ hconnected ▸ Finset.insert_subset hmem h.connected) (fun u hu hne => ?_)
        fun _ id _ => hgood.shown_of_notMem (Finset.notMem_erase guid s.online)
      rw [hconnected] at hu
      exact hwindows u (Finset.mem_of_mem_insert_of_ne hu hne) hne
  | disconnect guid =>
    refine .withoutWindows h.good ((Finset.erase_subset _ _).trans h.connected)
      (fun u hu _ => h.windows u (Finset.mem_of_mem_erase hu)) fun hu => ?_
    exact absurd hu (Finset.notMem_erase guid s.connected)
  | logout guid =>
    obtain ⟨hgood, honline, hconnected, hwindows⟩ := h.leaveAll guid
    refine .withoutWindows (honline ▸ hgood)
      (honline ▸ hconnected ▸ Finset.erase_subset_erase _ h.connected) (fun u hu hne => ?_)
      fun hu => ?_
    · rw [hconnected] at hu
      exact hwindows u (Finset.mem_of_mem_erase hu) hne
    · exact absurd hu (Finset.notMem_erase guid _)
  | playerCreatePrivateChannel player =>
    rw [ChatChannels.step]
    split
    case isTrue => exact h
    case isFalse hguid =>
      rw [playerCreatePrivateChannel]
      split
      · exact h
      · split
        case h_1 => exact h
        case h_2 chat' ref hcreate =>
          split
          case h_1 hadd =>
            -- A new channel has no users yet.
            obtain ⟨i, -, -, -, rfl, rfl⟩ := createChannel_private hcreate
            rw [find_update, if_pos rfl, Option.bind_some, ChatChannel.addUser,
              if_neg (Finset.notMem_empty _)] at hadd
            cases hadd
          case h_2 channel mails hadd =>
            obtain ⟨hgood, hshows⟩ := creates h.good (not_not.1 hguid) hcreate hadd
            exact h.deliver hgood hshows
  | playerChannelInvite player invitePlayer =>
    rw [ChatChannels.step]
    split
    case isTrue => exact h
    case isFalse =>
      exact h.changePrivateChannel fun id channel hother hc => invites h.good hother hc
  | playerChannelExclude player excludePlayer =>
    rw [ChatChannels.step]
    split
    case isTrue => exact h
    case isFalse =>
      exact h.changePrivateChannel fun id channel _ hc => excludes h.good hc
  | playerRequestChannels player canJoin =>
    rw [ChatChannels.step]
    split
    case isTrue => exact h
    case isFalse =>
      obtain ⟨hgood, hsame⟩ := h.good.list player canJoin
      exact ⟨hgood, h.connected, fun u hu id hid => hsame ▸ h.windows u hu id hid⟩
  | playerOpenChannel player channelId canJoin onJoin =>
    rw [ChatChannels.step]
    split
    case isTrue => exact h
    case isFalse hguid =>
      rw [playerOpenChannel]
      split
      case h_1 => exact h
      case h_2 chat' mails channel hadd =>
        obtain ⟨hgood, hshows⟩ := opens h.good (not_not.1 hguid) hadd
        exact h.deliver hgood hshows
  | playerCloseChannel player channelId canJoin =>
    rw [ChatChannels.step]
    split
    case isTrue => exact h
    case isFalse =>
      rcases hremove : s.chat.removeUserFromChannel player channelId canJoin with ⟨chat', mails⟩
      obtain ⟨hgood, hshows⟩ := closes h.good hremove
      dsimp only
      rw [hremove]
      refine ⟨hgood, h.connected, fun u hu id hid => ?_⟩
      have hu' : u ∈ s.connected := hu
      have hclosed := hshows id hid u
      rw [closed, ← h.windows u hu' id hid] at hclosed
      exact (if_pos hu').trans hclosed
  | sendClosePrivate player =>
    rcases hremove : s.chat.removeUserFromChannel player CHANNEL_PARTY true with ⟨chat', mails⟩
    obtain ⟨hgood, hshows⟩ := closes h.good hremove
    rw [ChatChannels.step, hremove]
    -- The window is that of the party.
    have hparty {id : ℕ} (hid : id ∈ Chat.slots) : CHANNEL_PARTY ≠ id :=
      (Nat.lt_of_lt_of_le (by decide) (mem_slots.1 hid).1).ne
    refine h.deliver hgood fun id hid u => ?_
    have hclosed := hshows id hid u
    rw [closed, if_neg fun heq => hparty hid heq.2.symm] at hclosed
    rw [receive_append, hclosed]
    refine silent_singleton (fun id hid window => ?_) id hid u _
    rw [Message.show, if_neg (hparty hid)]

theorem invariant_of_reachable (h : system.Reachable s) : Invariant s :=
  h.invariant (fun _ => invariant_initial) fun _ op _ hs _ hstep =>
    Option.some.inj hstep ▸ hs.step op

/-- In every run, the client of every player shows windows for those private channels that the
    player is a user of, and for no others, and in each window the users of the channel. -/
theorem windows_of_reachable (h : system.Reachable s) (hu : u ∈ s.connected)
    (hid : id ∈ Chat.slots) :
    s.windows u id = (s.chat.privateChannels.lookup id).bind fun channel =>
      if u ∈ channel.users then some channel.users else none :=
  (invariant_of_reachable h).windows u hu id hid

/-- What a user says comes to all users of the channel, if the script of the channel lets her
    speak. -/
theorem mem_talkToChannel_iff (hgood : Good chat online) (hid : id ∈ Chat.slots) {type : ℕ}
    {text : String} {onSpeak : ℕ → Option ℕ} {mail : Mail} :
    mail ∈ chat.talkToChannel player type text id canJoin onSpeak ↔
      ∃ channel type', chat.privateChannels.lookup id = some channel ∧
        onSpeak (Chat.speakType player type id) = some type' ∧
        player.guid ∈ channel.users ∧ mail.1 ∈ channel.users ∧
        mail = (mail.1, .toChannel player.guid type' text id) := by
  have hsend {channel : ChatChannel} {message : Message} :
      mail ∈ sendToUsers channel.users message ↔
        mail.1 ∈ channel.users ∧ mail = (mail.1, message) := by
    rw [sendToUsers, List.mem_map]
    constructor
    · rintro ⟨u, hu, rfl⟩
      exact ⟨(Finset.mem_sort (· ≤ ·)).1 hu, rfl⟩
    · rintro ⟨hu, hmail⟩
      exact ⟨mail.1, (Finset.mem_sort (· ≤ ·)).2 hu, hmail.symm⟩
  rw [Chat.talkToChannel]
  constructor
  · intro h
    split at h
    case h_1 => cases h
    case h_2 channel hfound =>
      split at h
      case h_1 => cases h
      case h_2 type' hspeak =>
        split at h
        case isTrue => cases h
        case isFalse hspeaker =>
          obtain ⟨ref, href, hfind⟩ := Option.bind_eq_some_iff.1 hfound
          obtain rfl := private_of_getChannel hgood hid href
          obtain ⟨-, hnumber, -⟩ := hgood.numbered hfind
          obtain ⟨hu, hmail⟩ := hsend.1 h
          exact ⟨channel, type', hfind, hspeak, not_not.1 hspeaker, hu, hnumber ▸ hmail⟩
  · rintro ⟨channel, type', hc, hspeak, hplayer, hu, hmail⟩
    -- A user was invited, so the channel is found for her.
    have href : chat.getChannel player id canJoin = some (.private_ id) :=
      getChannel_private hgood hid hc (hgood.invited hc _ hplayer)
    have hfind : chat.find (.private_ id) = some channel := hc
    obtain ⟨-, hnumber, -⟩ := hgood.numbered hc
    rw [href, Option.bind_some, hfind]
    simp only [hspeak, hplayer, not_true_eq_false, if_false]
    exact hsend.2 ⟨hu, hnumber ▸ hmail⟩

/-- In every run, what is said in a private channel comes only to players whom its owner has
    invited, or to the owner, and only from those. Their clients show them each other. No player
    owns another private channel. -/
theorem talk_of_reachable {type : ℕ} {text : String} {onSpeak : ℕ → Option ℕ} {mail : Mail}
    (h : system.Reachable s) (hid : id ∈ Chat.slots)
    (hmail : mail ∈ s.chat.talkToChannel player type text id canJoin onSpeak) :
    ∃ channel, s.chat.privateChannels.lookup id = some channel ∧
      channel.isInvited mail.1 ∧ channel.isInvited player.guid ∧
      (mail.1 ∈ s.connected → ∃ users, s.windows mail.1 id = some users ∧
        mail.1 ∈ users ∧ player.guid ∈ users) ∧
      ∀ j d, s.chat.privateChannels.lookup j = some d → d.owner = channel.owner → j = id := by
  have hgood := (invariant_of_reachable h).good
  obtain ⟨channel, -, hc, -, hplayer, hu, -⟩ := (mem_talkToChannel_iff hgood hid).1 hmail
  refine ⟨channel, hc, hgood.invited hc _ hu, hgood.invited hc _ hplayer,
    fun hconnected => ⟨channel.users, ?_, hu, hplayer⟩,
    fun j d hd heq => hgood.owner hd hc heq⟩
  rw [windows_of_reachable h hconnected hid, hc, Option.bind_some, if_pos hu]

/-! ## An example -/

/-- A server without channels for everybody. -/
def emptyServer : State where
  chat := ⟨.empty, .empty, .empty, .empty⟩
  online := ∅
  connected := ∅
  windows _ _ := none

def host : Player where
  guid := 1
  name := "Host"
  possessivePronoun := "her"
  isPremium := true
  party := none
  guild := none

def visitor : Player := { host with guid := 2, name := "Visitor", isPremium := false }

/-- A player creates a channel, and another one opens it. -/
def meeting : State :=
  [Op.login 1, .login 2, .playerCreatePrivateChannel host, .playerChannelInvite host visitor,
    .playerOpenChannel visitor 100 true true].foldl step emptyServer

theorem reachable_foldl (h : system.Reachable s) (ops : List Op) :
    system.Reachable (ops.foldl step s) := by
  induction ops generalizing s with
  | nil => exact h
  | cons op ops ih => exact ih (.step h trivial rfl)

theorem reachable_meeting : system.Reachable meeting := by
  refine reachable_foldl (.init ?_) _
  refine ⟨fun _ _ h => ?_, fun _ => rfl, fun _ => rfl, fun _ => rfl, rfl, rfl⟩
  cases h

/-- The visitor sees the host and herself. -/
theorem windows_meeting : meeting.windows 2 100 = some {2, 1} :=
  windows_of_reachable reachable_meeting (by decide +kernel) (by decide +kernel)

/-- The host hears what the visitor says. -/
theorem talk_meeting :
    ∃ channel, meeting.chat.privateChannels.lookup 100 = some channel ∧
      channel.isInvited 1 ∧ channel.isInvited 2 ∧
      (1 ∈ meeting.connected → ∃ users, meeting.windows 1 100 = some users ∧
        1 ∈ users ∧ 2 ∈ users) ∧
      ∀ j d, meeting.chat.privateChannels.lookup j = some d → d.owner = channel.owner →
        j = 100 := by
  have hslot : 100 ∈ Chat.slots := mem_slots.2 (by decide)
  have hheard : ((1, .toChannel 2 TALKTYPE_CHANNEL_Y "Hello" 100) : Mail) ∈
      meeting.chat.talkToChannel visitor TALKTYPE_CHANNEL_Y "Hello" 100 true some :=
    (mem_talkToChannel_iff (invariant_of_reachable reachable_meeting).good hslot).2
      ⟨_, _, rfl, rfl, by decide +kernel, by decide +kernel, rfl⟩
  exact talk_of_reachable reachable_meeting hslot hheard

end Canary.Game.ChatChannels
