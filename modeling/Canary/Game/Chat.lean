import Canary.Lib.SortedMap
import Canary.Lib.Transition
import Mathlib.Data.Finset.Sort

/-!
# Chat channels

There are channels for everybody, one for each party and each guild, and private ones. A player
opens a channel if she may join it, and is then one of its users, who get what is said in it. The
clients show a window for every channel that is open, with the users that take part: the server
tells them of each user that joins and leaves, and when a private channel is closed.

A premium player may own one private channel, whose users have been invited by its owner. In every
run, a player owns at most one, and what is said in it comes only to its owner and those who are
invited at that time; and every client has windows for exactly those private channels that its
player is a user of, each showing the users (see `Game.ChatWindows`).

A client that is not connected gets no messages; when a client takes over a player, the player
leaves all channels. Scripts are asked whether a player may join; what they say is an argument of
the call. Left out is the death of players, who stay in their channels.
-/

namespace Canary.Game.ChatChannels

open Transition

/-! ## Channels -/

def CHANNEL_GUILD : ℕ := 0x00
def CHANNEL_PARTY : ℕ := 0x01
def CHANNEL_PRIVATE : ℕ := 0xFFFF

def TALKTYPE_CHANNEL_Y : ℕ := 7
def TALKTYPE_CHANNEL_O : ℕ := 8

structure Guild where
  id : ℕ
  name : String

/-- What the chat asks of a player. Players have the number of the database; the number they have
    in the game grows with it. -/
structure Player where
  guid : ℕ
  name : String
  possessivePronoun : String
  isPremium : Bool
  party : Option ℕ
  guild : Option Guild
  /-- The level of the rank in the guild -/
  guildRank : Option ℕ := none

/-- The users of a channel. A channel that is not private has no owner and invites nobody. -/
structure ChatChannel where
  id : ℕ
  name : String
  publicChannel : Bool := false
  users : Finset ℕ := ∅
  owner : ℕ := 0
  invites : Finset ℕ := ∅

inductive ChannelEvent
  | join | leave | invite | exclude
  deriving DecidableEq, Repr

/-- The messages to a client. A message names players; here, it has their numbers. -/
inductive Message
  | textMessage (text : String)
  | channelEvent (channelId : ℕ) (player : ℕ) (event : ChannelEvent)
  | closePrivate (channelId : ℕ)
  | createPrivateChannel (channelId : ℕ) (channelName : String)
  | channel (channelId : ℕ) (channelName : String) (users invites : Finset ℕ)
  | toChannel (speaker : ℕ) (type : ℕ) (text : String) (channelId : ℕ)

/-- A message, and the player it is for. -/
abbrev Mail := ℕ × Message

/-- All users get the message, in the order of their numbers. -/
def sendToUsers (users : Finset ℕ) (message : Message) : List Mail :=
  (users.sort (· ≤ ·)).map (·, message)

namespace ChatChannel

variable (channel : ChatChannel)

/-- `PrivateChatChannel::isInvited` -/
def isInvited (guid : ℕ) : Bool := guid = channel.owner || guid ∈ channel.invites

/-- The channel with the new user, if she is not one already and the script of the channel
    lets her in. -/
def addUser (player : ℕ) (onJoin : Bool) : Option (ChatChannel × List Mail) :=
  if player ∈ channel.users then none
  else if !onJoin then none
  else
    some ({ channel with users := insert player channel.users },
      if channel.publicChannel then []
      else sendToUsers channel.users (.channelEvent channel.id player .join))

def removeUser (player : ℕ) : Option (ChatChannel × List Mail) :=
  if player ∉ channel.users then none
  else
    let users := channel.users.erase player
    some ({ channel with users },
      if channel.publicChannel then []
      else sendToUsers users (.channelEvent channel.id player .leave))

def removeInvite (guid : ℕ) : ChatChannel :=
  { channel with invites := channel.invites.erase guid }

def closeChannel : List Mail := sendToUsers channel.users (.closePrivate channel.id)

/-- The channel without the user, if she is one. -/
def withoutUser (player : ℕ) : ChatChannel × List Mail :=
  (channel.removeUser player).getD (channel, [])

/-- `PrivateChatChannel::invitePlayer` -/
def invitePlayer (player invitePlayer : Player) : ChatChannel × List Mail :=
  if invitePlayer.guid ∈ channel.invites then (channel, [])
  else
    ({ channel with invites := insert invitePlayer.guid channel.invites },
      [(invitePlayer.guid, .textMessage (player.name ++ " invites you to " ++
          player.possessivePronoun ++ " private chat channel.")),
        (player.guid, .textMessage (invitePlayer.name ++ " has been invited."))] ++
      sendToUsers channel.users (.channelEvent channel.id invitePlayer.guid .invite))

/-- `PrivateChatChannel::excludePlayer` -/
def excludePlayer (player excludePlayer : Player) : ChatChannel × List Mail :=
  if excludePlayer.guid ∉ channel.invites then (channel, [])
  else
    let (channel, left) := (channel.removeInvite excludePlayer.guid).withoutUser excludePlayer.guid
    (channel,
      left ++
      [(player.guid, .textMessage (excludePlayer.name ++ " has been excluded.")),
        (excludePlayer.guid, .closePrivate channel.id)] ++
      sendToUsers channel.users (.channelEvent channel.id excludePlayer.guid .exclude))

end ChatChannel

/-! ## The chat -/

abbrev ChannelMap := SortedMap ℕ ChatChannel

/-- Parties are known by their addresses, guilds by their numbers. -/
structure Chat where
  normalChannels : ChannelMap
  privateChannels : ChannelMap
  partyChannels : ChannelMap
  guildChannels : ChannelMap

/-- A channel, as one of those of the chat. -/
inductive Ref
  | normal (id : ℕ)
  | private_ (id : ℕ)
  | party (party : ℕ)
  | guild (guildId : ℕ)
  deriving DecidableEq

namespace Chat

variable (chat : Chat)

def find : Ref → Option ChatChannel
  | .normal id => chat.normalChannels.lookup id
  | .private_ id => chat.privateChannels.lookup id
  | .party party => chat.partyChannels.lookup party
  | .guild guildId => chat.guildChannels.lookup guildId

def update (channel : ChatChannel) : Ref → Chat
  | .normal id => { chat with normalChannels := chat.normalChannels.insert id channel }
  | .private_ id => { chat with privateChannels := chat.privateChannels.insert id channel }
  | .party party => { chat with partyChannels := chat.partyChannels.insert party channel }
  | .guild guildId => { chat with guildChannels := chat.guildChannels.insert guildId channel }

/-- The channel that the player means, if she may join it. -/
def getChannel (player : Player) (channelId : ℕ) (canJoin : Bool) : Option Ref :=
  if channelId = CHANNEL_GUILD then
    player.guild.bind fun guild =>
      if (chat.guildChannels.lookup guild.id).isSome then some (.guild guild.id) else none
  else if channelId = CHANNEL_PARTY then
    player.party.bind fun party =>
      if (chat.partyChannels.lookup party).isSome then some (.party party) else none
  else
    match chat.normalChannels.lookup channelId with
    | some _ => if canJoin then some (.normal channelId) else none
    | none =>
      match chat.privateChannels.lookup channelId with
      | some channel => if channel.isInvited player.guid then some (.private_ channelId) else none
      | none => none

/-- The private channel that the player owns. -/
def getPrivateChannel (guid : ℕ) : Option (ℕ × ChatChannel) :=
  chat.privateChannels.entries.find? fun e => e.2.owner = guid

/-- The numbers of private channels -/
def slots : List ℕ := List.range' 100 9900

def createChannel (player : Player) (channelId : ℕ) (canJoin : Bool) : Chat × Option Ref :=
  if (chat.getChannel player channelId canJoin).isSome then (chat, none)
  else if channelId = CHANNEL_GUILD then
    match player.guild with
    | none => (chat, none)
    | some guild =>
      (chat.update { id := channelId, name := guild.name } (.guild guild.id),
        some (.guild guild.id))
  else if channelId = CHANNEL_PARTY then
    match player.party with
    | none => (chat, none)
    | some party =>
      (chat.update { id := channelId, name := "Party" } (.party party), some (.party party))
  else if channelId = CHANNEL_PRIVATE then
    -- only 1 private channel for each premium player
    if !player.isPremium || (chat.getPrivateChannel player.guid).isSome then (chat, none)
    else
      -- find a free private channel slot
      match slots.find? fun i => (chat.privateChannels.lookup i).isNone with
      | none => (chat, none)
      | some i =>
        (chat.update { id := i, name := player.name ++ "'s Channel", owner := player.guid }
          (.private_ i), some (.private_ i))
  else (chat, none)

def deleteChannel (player : Player) (channelId : ℕ) : Chat × List Mail :=
  if channelId = CHANNEL_GUILD then
    match player.guild with
    | none => (chat, [])
    | some guild => ({ chat with guildChannels := chat.guildChannels.erase guild.id }, [])
  else if channelId = CHANNEL_PARTY then
    match player.party with
    | none => (chat, [])
    | some party => ({ chat with partyChannels := chat.partyChannels.erase party }, [])
  else
    match chat.privateChannels.lookup channelId with
    | none => (chat, [])
    | some channel =>
      ({ chat with privateChannels := chat.privateChannels.erase channelId },
        channel.closeChannel)

def addUserToChannel (player : Player) (channelId : ℕ) (canJoin onJoin : Bool) :
    Chat × List Mail × Option ChatChannel :=
  match (chat.getChannel player channelId canJoin).bind fun ref =>
      (chat.find ref).map (ref, ·) with
  | none => (chat, [], none)
  | some (ref, channel) =>
    match channel.addUser player.guid onJoin with
    | none => (chat, [], none)
    | some (channel, mails) => (chat.update channel ref, mails, some channel)

def removeUserFromChannel (player : Player) (channelId : ℕ) (canJoin : Bool) :
    Chat × List Mail :=
  match (chat.getChannel player channelId canJoin).bind fun ref =>
      (chat.find ref).map (ref, ·) with
  | none => (chat, [])
  | some (ref, channel) =>
    match channel.removeUser player.guid with
    | none => (chat, [])
    | some (channel, mails) =>
      let chat := chat.update channel ref
      if channel.owner = player.guid then
        let (chat, closed) := chat.deleteChannel player channelId
        (chat, mails ++ closed)
      else (chat, mails)

/-- The user is removed from the channels of a map, one after the other. -/
def removeUserFromChannels (channels : ChannelMap) (guid : ℕ) : ChannelMap × List Mail :=
  (channels.filterMap fun channel => some (channel.withoutUser guid).1,
    channels.entries.flatMap fun e => (e.2.withoutUser guid).2)

/-- What becomes of a private channel when a player leaves all channels: nothing is left of the
    player's own. -/
def leavePrivate (guid : ℕ) (channel : ChatChannel) : Option ChatChannel × List Mail :=
  let (channel, mails) := (channel.removeInvite guid).withoutUser guid
  if channel.owner = guid then (none, mails ++ channel.closeChannel) else (some channel, mails)

def removeUserFromAllChannels (guid : ℕ) : Chat × List Mail :=
  let (normalChannels, normalMails) := removeUserFromChannels chat.normalChannels guid
  let (partyChannels, partyMails) := removeUserFromChannels chat.partyChannels guid
  let (guildChannels, guildMails) := removeUserFromChannels chat.guildChannels guid
  ({ normalChannels, partyChannels, guildChannels
     privateChannels := chat.privateChannels.filterMap fun channel =>
       (leavePrivate guid channel).1 },
    normalMails ++ partyMails ++ guildMails ++
      chat.privateChannels.entries.flatMap fun e => (leavePrivate guid e.2).2)

/-- The kind of speech: in a guild, that of those with a rank is another. -/
def speakType (player : Player) (type channelId : ℕ) : ℕ :=
  if channelId = CHANNEL_GUILD then
    if player.guildRank.any (1 < ·) then TALKTYPE_CHANNEL_O else TALKTYPE_CHANNEL_Y
  else if channelId = CHANNEL_PRIVATE ∨ channelId = CHANNEL_PARTY then TALKTYPE_CHANNEL_Y
  else type

/-- Who gets what the player says: the users of the channel, if she is one. The script of the
    channel may change the kind of speech, or refuse it. -/
def talkToChannel (player : Player) (type : ℕ) (text : String) (channelId : ℕ) (canJoin : Bool)
    (onSpeak : ℕ → Option ℕ) : List Mail :=
  match (chat.getChannel player channelId canJoin).bind chat.find with
  | none => []
  | some channel =>
    match onSpeak (speakType player type channelId) with
    | none => []
    | some type =>
      if player.guid ∉ channel.users then []
      else sendToUsers channel.users (.toChannel player.guid type text channel.id)

/-- The guild's channel or the party's, which is created if need be. -/
def listOwn (player : Player) (channelId : ℕ) : Chat × List Ref :=
  match chat.getChannel player channelId false with
  | some ref => (chat, [ref])
  | none =>
    let (chat, created) := chat.createChannel player channelId false
    (chat, created.toList)

/-- The channels that the player may open; `none` stands for a private channel of her own that
    she may yet create. -/
def getChannelList (player : Player) (canJoin : ℕ → Bool) : Chat × List (Option Ref) :=
  let (chat, guild) := if player.guild.isSome then chat.listOwn player CHANNEL_GUILD
    else (chat, [])
  let (chat, party) := if player.party.isSome then chat.listOwn player CHANNEL_PARTY
    else (chat, [])
  let normal := chat.normalChannels.entries.filterMap fun e =>
    chat.getChannel player e.1 (canJoin e.1)
  let invited := chat.privateChannels.entries.filterMap fun e =>
    if e.2.isInvited player.guid then some (Ref.private_ e.1) else none
  let hasPrivate := chat.privateChannels.entries.any fun e => e.2.owner = player.guid
  let list := (guild ++ party ++ normal ++ invited).map some
  (chat, if !hasPrivate && player.isPremium then none :: list else list)

end Chat

/-! ## The server and its clients -/

structure State where
  chat : Chat
  /-- The players in the game -/
  online : Finset ℕ
  /-- Those who have a client -/
  connected : Finset ℕ
  /-- The windows that a client has open, by the numbers of the channels, with the users that it
      shows. -/
  windows : ℕ → ℕ → Option (Finset ℕ)

/-- What a message does to the window of a channel. -/
def Message.show (guid channelId : ℕ) (window : Option (Finset ℕ)) :
    Message → Option (Finset ℕ)
  | .channel id _ users _ => if id = channelId then some users else window
  | .createPrivateChannel id _ => if id = channelId then some {guid} else window
  | .closePrivate id => if id = channelId then none else window
  | .channelEvent id player .join =>
    if id = channelId then window.map (insert player) else window
  | .channelEvent id player .leave =>
    if id = channelId then window.map (·.erase player) else window
  | .channelEvent _ _ .invite | .channelEvent _ _ .exclude | .textMessage _
  | .toChannel _ _ _ _ => window

/-- The client of the player gets those of the messages that are for it. -/
def receive (guid channelId : ℕ) (window : Option (Finset ℕ)) (mails : List Mail) :
    Option (Finset ℕ) :=
  mails.foldl (fun window mail =>
    if mail.1 = guid then mail.2.show guid channelId window else window) window

namespace State

variable (s : State)

/-- The messages come to the clients. -/
def deliver (mails : List Mail) : State :=
  { s with windows := fun guid channelId =>
      if guid ∈ s.connected then receive guid channelId (s.windows guid channelId) mails
      else s.windows guid channelId }

/-- The client has no windows open, as when it has just been connected. -/
def withoutWindows (guid : ℕ) : State :=
  { s with windows := fun player channelId =>
      if player = guid then none else s.windows player channelId }

end State

/-- What players and their clients do. Players that are not in the game are not found. -/
inductive Op
  /-- The player comes into the game, with a client. -/
  | login (guid : ℕ)
  /-- A client takes over the player. -/
  | connect (guid : ℕ)
  | disconnect (guid : ℕ)
  | logout (guid : ℕ)
  | playerCreatePrivateChannel (player : Player)
  | playerChannelInvite (player invitePlayer : Player)
  | playerChannelExclude (player excludePlayer : Player)
  | playerRequestChannels (player : Player) (canJoin : ℕ → Bool)
  | playerOpenChannel (player : Player) (channelId : ℕ) (canJoin onJoin : Bool)
  /-- The client closes the window, and tells the server. -/
  | playerCloseChannel (player : Player) (channelId : ℕ) (canJoin : Bool)
  /-- The player is told that she has left her party. -/
  | sendClosePrivate (player : Player)

/-- A premium player opens a private channel, and is its first user. -/
def playerCreatePrivateChannel (s : State) (player : Player) : State :=
  if !player.isPremium then s
  else
    match s.chat.createChannel player CHANNEL_PRIVATE true with
    | (_, none) => s
    | (chat, some ref) =>
      match (chat.find ref).bind fun channel => channel.addUser player.guid true with
      | none => { s with chat }
      | some (channel, mails) =>
        { s with chat := chat.update channel ref }.deliver
          (mails ++ [(player.guid, Message.createPrivateChannel channel.id channel.name)])

/-- An operation on the private channel that the player owns. -/
def changePrivateChannel (s : State) (player other : Player)
    (change : ChatChannel → ChatChannel × List Mail) : State :=
  match s.chat.getPrivateChannel player.guid with
  | none => s
  | some (channelId, channel) =>
    if other.guid ∉ s.online then s
    else if player.guid = other.guid then s
    else
      let (channel, mails) := change channel
      { s with chat := s.chat.update channel (.private_ channelId) }.deliver mails

def playerOpenChannel (s : State) (player : Player) (channelId : ℕ) (canJoin onJoin : Bool) :
    State :=
  match s.chat.addUserToChannel player channelId canJoin onJoin with
  | (_, _, none) => s
  | (chat, mails, some channel) =>
    let users := if channel.publicChannel then ∅ else channel.users
    { s with chat }.deliver
      (mails ++ [(player.guid, Message.channel channel.id channel.name users channel.invites)])

/-- `Chat::removeUserFromAllChannels`, with its messages. -/
def leaveAll (s : State) (guid : ℕ) : State :=
  let (chat, mails) := s.chat.removeUserFromAllChannels guid
  { s with chat }.deliver mails

def step (s : State) : Op → State
  | .login guid =>
    if guid ∈ s.online then s
    else
      { s with online := insert guid s.online, connected := insert guid s.connected
        }.withoutWindows guid
  | .connect guid =>
    if guid ∉ s.online then s
    else
      let s := leaveAll s guid
      { s with connected := insert guid s.connected }.withoutWindows guid
  | .disconnect guid =>
    { s with connected := s.connected.erase guid }.withoutWindows guid
  | .logout guid =>
    let s := leaveAll s guid
    { s with online := s.online.erase guid, connected := s.connected.erase guid
      }.withoutWindows guid
  | .playerCreatePrivateChannel player =>
    if player.guid ∉ s.online then s else playerCreatePrivateChannel s player
  | .playerChannelInvite player invitePlayer =>
    if player.guid ∉ s.online then s
    else changePrivateChannel s player invitePlayer fun channel =>
      channel.invitePlayer player invitePlayer
  | .playerChannelExclude player excludePlayer =>
    if player.guid ∉ s.online then s
    else changePrivateChannel s player excludePlayer fun channel =>
      channel.excludePlayer player excludePlayer
  | .playerRequestChannels player canJoin =>
    if player.guid ∉ s.online then s
    else { s with chat := (s.chat.getChannelList player canJoin).1 }
  | .playerOpenChannel player channelId canJoin onJoin =>
    if player.guid ∉ s.online then s
    else playerOpenChannel s player channelId canJoin onJoin
  | .playerCloseChannel player channelId canJoin =>
    if player.guid ∉ s.online then s
    else
      let s := { s with windows := fun guid id =>
        if guid = player.guid ∧ id = channelId then none else s.windows guid id }
      let (chat, mails) := s.chat.removeUserFromChannel player channelId canJoin
      { s with chat }.deliver mails
  | .sendClosePrivate player =>
    let (chat, mails) := s.chat.removeUserFromChannel player CHANNEL_PARTY true
    { s with chat }.deliver (mails ++ [(player.guid, Message.closePrivate CHANNEL_PARTY)])

/-- At the start, there are only the channels of the configuration, whose numbers are not those
    of private channels. -/
structure Initial (s : State) : Prop where
  normal : ∀ id channel, s.chat.normalChannels.lookup id = some channel →
    id ∉ Chat.slots ∧ channel.id = id
  private_ : ∀ id, s.chat.privateChannels.lookup id = none
  party : ∀ party, s.chat.partyChannels.lookup party = none
  guild : ∀ guildId, s.chat.guildChannels.lookup guildId = none
  online : s.online = ∅
  connected : s.connected = ∅

def system : System State Op := .ofNext Initial fun s op => some (step s op)

end Canary.Game.ChatChannels
