import Canary.Items.Item
import Canary.Lib.Lines
import Mathlib.Data.Finset.Insert
import Mathlib.Data.List.DropRight

/-!
# Access lists of houses

The owner of a house writes a text that says who may enter: on each line a player, a guild after an
`@`, a rank before the `@` of a guild, or a `*` for everyone. `parseList` reads it into sets of
players and ranks. What it keeps of the text, without empty lines and characters that are not
allowed, is read the same way again.

What a line says (`meaning`) is not always what is read (`reading`):

* before an `@` in a line, the last character of the rank is left out;
* a line with an `@` is read even if it has wildcards;
* no player is looked up whose name has more than 30 characters.

So a list is read as it says exactly if such lines do no harm (`parseList_exact_iff`): nobody is
let in by one of them alone, and nobody is forgotten whom no other line names.
-/

namespace Canary.Houses

open Items Lines

/-! ## Names -/

structure GuildRank where
  id : BitVec 32
  name : List UInt8

structure Guild where
  ranks : List GuildRank

/-- `Guild::getRankByName` -/
def Guild.getRankByName (guild : Guild) (name : List UInt8) : Option GuildRank :=
  guild.ranks.find? fun rank => rank.name = name

/-- Where names are looked up: the players who are online, the guilds that are loaded, and the
    database, which answers 0 if there is none. -/
structure Names where
  /-- `Game::getPlayerByName`, and the number of the player. -/
  getPlayerByName : List UInt8 → Option (BitVec 32)
  getGuidByName : List UInt8 → BitVec 32
  getGuildIdByName : List UInt8 → BitVec 32
  getGuild : BitVec 32 → Option Guild
  loadGuild : BitVec 32 → Option Guild

def Names.getGuildByName (names : Names) (name : List UInt8) : Option Guild :=
  let guildId := names.getGuildIdByName name
  if guildId = 0 then none
  else (names.getGuild guildId).orElse fun _ => names.loadGuild guildId

/-! ## The text -/

def newline : UInt8 := 10
def tab : UInt8 := 9
def space : UInt8 := 32
def hash : UInt8 := 35
def star : UInt8 := 42
def atSign : UInt8 := 64

/-- `NETWORKMESSAGE_PLAYERNAME_MAXLENGTH` -/
def playerNameMaxLength : ℕ := 30

/-- `[a-zA-Z' \n*!@#]` -/
def isValidChar (c : UInt8) : Bool :=
  (97 ≤ c && c ≤ 122) || (65 ≤ c && c ≤ 90) || c ∈ ascii "' \n*!@#"

/-- `[!*?]` -/
def isWildcard (c : UInt8) : Bool := c ∈ ascii "!*?"

def trim_right (source : List UInt8) (t : UInt8) : List UInt8 := source.rdropWhile (· = t)

def trim_left (source : List UInt8) (t : UInt8) : List UInt8 := source.dropWhile (· = t)

def trimString (str : List UInt8) : List UInt8 := trim_left (trim_right str space) space

/-- `explodeString`, for a separator of one character. -/
def explodeString (inString : List UInt8) (separator : UInt8) (limit : ℤ) : List (List UInt8) :=
  explode separator inString limit

/-- The text without the characters that are not allowed, and without empty lines. -/
def validList (list : List UInt8) : List UInt8 :=
  closed newline ((getlines newline (list.filter isValidChar)).filter (· ≠ []))

/-! ## The list -/

/-- A line that is empty, or commented out, or too long. -/
def Skipped (line : List UInt8) : Prop :=
  line = [] ∨ line.head? = some hash ∨ line.length > 100

instance (line : List UInt8) : Decidable (Skipped line) := inferInstanceAs (Decidable (_ ∨ _))

structure AccessList where
  list : List UInt8 := []
  playerList : Finset (BitVec 32) := ∅
  guildRankList : Finset (BitVec 32) := ∅
  allowEveryone : Bool := false

namespace AccessList

variable (names : Names) (a : AccessList)

def addPlayer (name : List UInt8) : AccessList :=
  match names.getPlayerByName name with
  | some guid => { a with playerList := insert guid a.playerList }
  | none =>
    let guid := names.getGuidByName name
    if guid ≠ 0 then { a with playerList := insert guid a.playerList } else a

def addGuild (name : List UInt8) : AccessList :=
  match names.getGuildByName name with
  | some guild => { a with
      guildRankList := guild.ranks.foldl (fun list rank => insert rank.id list) a.guildRankList }
  | none => a

def addGuildRank (name guildName : List UInt8) : AccessList :=
  match names.getGuildByName guildName with
  | some guild =>
    match guild.getRankByName name with
    | some rank => { a with guildRankList := insert rank.id a.guildRankList }
    | none => a
  | none => a

/-- What the loop of `parseList` does with a line. -/
def parseLine (line : List UInt8) : AccessList :=
  let line := trimString line
  let line := trim_left line tab
  let line := trim_right line tab
  let line := trimString line
  if Skipped line then a
  else
    let line := asLowerCaseString line
    match line.idxOf? atSign with
    | some at_pos =>
      if at_pos = 0 then a.addGuild names (line.drop 1)
      else a.addGuildRank names (line.take (at_pos - 1)) (line.drop (at_pos + 1))
    | none =>
      if line = [star] then { a with allowEveryone := true }
      else if line.any isWildcard then a
      else if line.length ≤ playerNameMaxLength then a.addPlayer names line
      else a

def parseList (list : List UInt8) : AccessList :=
  let validList := validList list
  let a := { a with playerList := ∅ }
  let a := { a with guildRankList := ∅ }
  let a := { a with allowEveryone := false }
  let a := { a with list := validList }
  if list = [] then a
  else (explodeString validList newline 100).foldl (parseLine names) a

/-- `isInList`, for the number of a player and that of the rank, if there is one. -/
def isInList (guid : BitVec 32) (guildRank : Option (BitVec 32)) : Bool :=
  a.allowEveryone || decide (guid ∈ a.playerList) ||
    guildRank.any fun id => decide (id ∈ a.guildRankList)

def getList : List UInt8 := a.list

end AccessList

/-! ## Lines -/

/-- Who a line is about. -/
inductive Entry
  | nobody
  | everyone
  | player (name : List UInt8)
  | guild (name : List UInt8)
  | rank (name guildName : List UInt8)
  deriving DecidableEq

/-- The player of a name, who may be offline. -/
def Names.player? (names : Names) (name : List UInt8) : Option (BitVec 32) :=
  (names.getPlayerByName name).orElse fun _ =>
    (some (names.getGuidByName name)).filter fun guid => guid ≠ 0

namespace Entry

variable (names : Names)

def players : Entry → List (BitVec 32)
  | player name => (names.player? name).toList
  | _ => []

def ranks : Entry → List (BitVec 32)
  | guild name => ((names.getGuildByName name).elim [] Guild.ranks).map GuildRank.id
  | rank name guildName =>
    ((names.getGuildByName guildName).bind fun guild => guild.getRankByName name).toList.map
      GuildRank.id
  | _ => []

end Entry

/-- What a text says. -/
def Entry.ofText (text : List UInt8) : Entry :=
  if text = [star] then .everyone
  else if text.any isWildcard then .nobody
  else match text.idxOf? atSign with
    | none => .player text
    | some 0 => .guild (text.drop 1)
    | some n => .rank (text.take n) (text.drop (n + 1))

/-- What `parseList` reads in a text. -/
def Entry.read (text : List UInt8) : Entry :=
  match text.idxOf? atSign with
  | some 0 => .guild (text.drop 1)
  | some n => .rank (text.take (n - 1)) (text.drop (n + 1))
  | none =>
    if text = [star] then .everyone
    else if text.any isWildcard then .nobody
    else if text.length ≤ playerNameMaxLength then .player text
    else .nobody

/-- What a line says. -/
def meaning (line : List UInt8) : Entry :=
  if Skipped (trimString line) then .nobody
  else .ofText (asLowerCaseString (trimString line))

/-- What `parseList` reads in a line. -/
def reading (line : List UInt8) : Entry :=
  if Skipped (trimString line) then .nobody
  else .read (asLowerCaseString (trimString line))

/-- A text with a rank before the `@`, or with an `@` and wildcards, or with a name that is too
    long. -/
def Tricky (text : List UInt8) : Prop :=
  (atSign ∈ text ∧ (text.head? ≠ some atSign ∨ text.any isWildcard = true)) ∨
    (atSign ∉ text ∧ text.any isWildcard = false ∧ playerNameMaxLength < text.length)

instance (text : List UInt8) : Decidable (Tricky text) := inferInstanceAs (Decidable (_ ∨ _))

/-- A line with such a text. -/
def Misread (line : List UInt8) : Prop :=
  ¬Skipped (trimString line) ∧ Tricky (asLowerCaseString (trimString line))

instance (line : List UInt8) : Decidable (Misread line) := inferInstanceAs (Decidable (_ ∧ _))

namespace Entry

variable {text : List UInt8}

theorem read_of_notMem (h : atSign ∉ text) :
    read text = if text = [star] then .everyone else if text.any isWildcard then .nobody
      else if text.length ≤ playerNameMaxLength then .player text else .nobody := by
  rw [read, List.idxOf?_eq_none_iff.2 h]

theorem ofText_of_notMem (h : atSign ∉ text) :
    ofText text = if text = [star] then .everyone else if text.any isWildcard then .nobody
      else .player text := by
  rw [ofText, List.idxOf?_eq_none_iff.2 h]

theorem read_of_idxOf {n : ℕ} (h : text.idxOf? atSign = some n) :
    read text = if n = 0 then .guild (text.drop 1)
      else .rank (text.take (n - 1)) (text.drop (n + 1)) := by
  rw [read, h]
  rcases n with _ | n <;> rfl

theorem ofText_of_idxOf {n : ℕ} (h : text.idxOf? atSign = some n) :
    ofText text = if text.any isWildcard then .nobody
      else if n = 0 then .guild (text.drop 1) else .rank (text.take n) (text.drop (n + 1)) := by
  have hstar : text ≠ [star] := by
    rintro rfl
    have hnone : [star].idxOf? atSign = none := by decide
    rw [hnone] at h
    cases h
  rw [ofText, if_neg hstar, h]
  rcases n with _ | n <;> rfl

/-- Where the `@` is, is there one. -/
theorem tricky_of_idxOf {n : ℕ} (h : text.idxOf? atSign = some n) :
    Tricky text ↔ n ≠ 0 ∨ text.any isWildcard = true := by
  obtain ⟨hn, hget, hbefore⟩ := List.idxOf?_eq_some_iff.1 h
  have hmem : atSign ∈ text := hget ▸ List.getElem_mem hn
  have hhead : text.head? = some atSign ↔ n = 0 := by
    rw [List.head?_eq_getElem?, List.getElem?_eq_some_iff]
    constructor
    · rintro ⟨h, hfirst⟩
      by_contra hne
      exact hbefore 0 (Nat.pos_of_ne_zero hne) hfirst
    · rintro rfl
      exact ⟨hn, hget⟩
  rw [Tricky, ne_eq, hhead]
  constructor
  · rintro (h | h)
    · exact h.2
    · exact absurd hmem h.1
  · exact fun h => .inl ⟨hmem, h⟩

theorem tricky_of_notMem (h : atSign ∉ text) :
    Tricky text ↔ text.any isWildcard = false ∧ playerNameMaxLength < text.length := by
  constructor
  · rintro (h' | h')
    · exact absurd h'.1 h
    · exact h'.2
  · exact fun h' => .inr ⟨h, h'⟩

/-- All other texts are read as what they say. -/
theorem tricky_iff (text : List UInt8) : Tricky text ↔ read text ≠ ofText text := by
  rcases hat : text.idxOf? atSign with _ | n
  · have hnot : atSign ∉ text := List.idxOf?_eq_none_iff.1 hat
    rw [tricky_of_notMem hnot, read_of_notMem hnot, ofText_of_notMem hnot]
    split_ifs with hstar hwild hlength
    · subst hstar
      exact ⟨fun h => absurd h.1 (by decide), fun h => absurd rfl h⟩
    · exact ⟨fun h => absurd (hwild.symm.trans h.1) Bool.noConfusion, fun h => absurd rfl h⟩
    · exact ⟨fun h => absurd hlength (Nat.not_le_of_lt h.2), fun h => absurd rfl h⟩
    · exact ⟨fun _ => Entry.noConfusion,
        fun _ => ⟨Bool.eq_false_of_not_eq_true hwild, Nat.lt_of_not_le hlength⟩⟩
  · rw [tricky_of_idxOf hat, read_of_idxOf hat, ofText_of_idxOf hat]
    split_ifs with hzero hwild hwild
    · exact ⟨fun _ => Entry.noConfusion, fun _ => .inr hwild⟩
    · exact ⟨fun h => h.elim (absurd hzero) fun h => absurd h hwild, fun h => absurd rfl h⟩
    · exact ⟨fun _ => Entry.noConfusion, fun _ => .inr hwild⟩
    · refine ⟨fun _ h => ?_, fun _ => .inl hzero⟩
      -- The rank has lost a character.
      have hlength := congrArg List.length (Entry.rank.inj h).1
      obtain ⟨hn, -⟩ := List.idxOf?_eq_some_iff.1 hat
      rw [List.length_take, List.length_take] at hlength
      omega

/-- In a text that is read wrongly, nobody is found by name. -/
theorem players_read_of_tricky (h : Tricky text) (names : Names) :
    (read text).players names = [] := by
  rcases hat : text.idxOf? atSign with _ | n
  · have hnot : atSign ∉ text := List.idxOf?_eq_none_iff.1 hat
    obtain ⟨-, hlength⟩ := (tricky_of_notMem hnot).1 h
    rw [read_of_notMem hnot, if_neg (Nat.not_le_of_lt hlength)]
    split_ifs <;> rfl
  · rw [read_of_idxOf hat]
    split_ifs <;> rfl

theorem read_eq_everyone_iff (text : List UInt8) :
    read text = .everyone ↔ ofText text = .everyone := by
  rcases hat : text.idxOf? atSign with _ | n
  · have hnot : atSign ∉ text := List.idxOf?_eq_none_iff.1 hat
    rw [read_of_notMem hnot, ofText_of_notMem hnot]
    split_ifs <;> simp
  · rw [read_of_idxOf hat, ofText_of_idxOf hat]
    split_ifs <;> simp

end Entry

theorem misread_iff (line : List UInt8) : Misread line ↔ reading line ≠ meaning line := by
  rw [Misread, reading, meaning]
  by_cases hskip : Skipped (trimString line)
  · rw [if_pos hskip, if_pos hskip]
    exact ⟨fun h => absurd hskip h.1, fun h => absurd rfl h⟩
  · rw [if_neg hskip, if_neg hskip, ← Entry.tricky_iff]
    exact and_iff_right hskip

theorem Misread.players_reading {line : List UInt8} (h : Misread line) (names : Names) :
    (reading line).players names = [] := by
  rw [reading, if_neg h.1]
  exact Entry.players_read_of_tricky h.2 names

theorem reading_eq_everyone_iff (line : List UInt8) :
    reading line = .everyone ↔ meaning line = .everyone := by
  rw [reading, meaning]
  split_ifs
  · rfl
  · exact Entry.read_eq_everyone_iff _

/-! ## Reading -/

/-- Where there are no tabs, nothing but spaces is trimmed. -/
theorem trim_tabs {line : List UInt8} (h : tab ∉ line) :
    trimString (trim_right (trim_left (trimString line) tab) tab) = trimString line := by
  have hmem : tab ∉ trimString line := fun htab => h
    ((List.rdropWhile_prefix _ _).subset ((List.dropWhile_suffix _).subset htab))
  have hleft : trim_left (trimString line) tab = trimString line := by
    refine List.dropWhile_eq_self_iff.2 fun hl he => hmem ?_
    rw [← of_decide_eq_true he]
    exact List.getElem_mem hl
  have hright : trim_right (trimString line) tab = trimString line := by
    refine List.rdropWhile_eq_self_iff.2 fun hl he => hmem ?_
    rw [← of_decide_eq_true he]
    exact List.getLast_mem hl
  rw [hleft, hright]
  -- The last character is that of the line without spaces at its end.
  have hspaces : trim_right (trimString line) space = trimString line := by
    refine List.rdropWhile_eq_self_iff.2 fun hl => ?_
    have hsuffix := List.dropWhile_suffix (fun c => decide (c = space)) (l := trim_right line space)
    have hlast := hsuffix.getLast hl
    change (trimString line).getLast hl = _ at hlast
    rw [hlast]
    exact List.rdropWhile_last_not (fun c => decide (c = space)) line _
  conv => lhs; rw [trimString, hspaces]
  exact List.dropWhile_idempotent _ _

/-- What a list gets from lines. -/
structure Adds (names : Names) (es : List Entry) (a a' : AccessList) : Prop where
  players : ∀ guid, guid ∈ a'.playerList ↔
    guid ∈ a.playerList ∨ ∃ e ∈ es, guid ∈ e.players names
  ranks : ∀ id, id ∈ a'.guildRankList ↔ id ∈ a.guildRankList ∨ ∃ e ∈ es, id ∈ e.ranks names
  everyone : a'.allowEveryone = true ↔ a.allowEveryone = true ∨ Entry.everyone ∈ es
  list : a'.list = a.list

namespace Adds

variable {names : Names} {es es' : List Entry} {a a₁ a' : AccessList}

theorem nil (a : AccessList) : Adds names [] a a := by
  refine ⟨fun _ => ?_, fun _ => ?_, ?_, rfl⟩
  · simp
  · simp
  · simp

theorem nobody (a : AccessList) : Adds names [.nobody] a a := by
  refine ⟨fun _ => ?_, fun _ => ?_, ?_, rfl⟩
  · simp [Entry.players]
  · simp [Entry.ranks]
  · simp

theorem append (h : Adds names es a a₁) (h' : Adds names es' a₁ a') :
    Adds names (es ++ es') a a' := by
  have hsplit : ∀ P : Entry → Prop, (∃ e ∈ es ++ es', P e) ↔ (∃ e ∈ es, P e) ∨ ∃ e ∈ es', P e := by
    intro P
    simp only [List.mem_append, or_and_right, exists_or]
  refine ⟨fun guid => ?_, fun id => ?_, ?_, h'.list.trans h.list⟩
  · rw [h'.players, h.players, or_assoc, hsplit]
  · rw [h'.ranks, h.ranks, or_assoc, hsplit]
  · rw [h'.everyone, h.everyone, or_assoc, List.mem_append]

theorem everyone_self (a : AccessList) :
    Adds names [.everyone] a { a with allowEveryone := true } := by
  refine ⟨fun _ => ?_, fun _ => ?_, ?_, rfl⟩
  · simp [Entry.players]
  · simp [Entry.ranks]
  · simp

theorem addPlayer (a : AccessList) (name : List UInt8) :
    Adds names [.player name] a (a.addPlayer names name) := by
  have hadd : a.addPlayer names name = (names.player? name).elim a fun guid =>
      { a with playerList := insert guid a.playerList } := by
    rw [AccessList.addPlayer, Names.player?]
    rcases names.getPlayerByName name with _ | guid
    · dsimp only [Option.orElse_none]
      split_ifs with hguid
      · rw [Option.filter_some, if_pos (decide_eq_true hguid), Option.elim_some]
      · rw [Option.filter_some, if_neg (by simpa using hguid), Option.elim_none]
    · rfl
  rw [hadd]
  refine ⟨fun guid => ?_, fun id => ?_, ?_, ?_⟩
  · rcases hp : names.player? name with _ | guid'
    · simp [Entry.players, hp]
    · simp [Entry.players, hp, or_comm]
  · rcases names.player? name with _ | guid' <;> simp [Entry.ranks]
  · rcases names.player? name with _ | guid' <;> simp
  · rcases names.player? name with _ | guid' <;> rfl

/-- The numbers of ranks are added one by one. -/
theorem mem_foldl_insert (ranks : List GuildRank) (list : Finset (BitVec 32)) (id : BitVec 32) :
    id ∈ ranks.foldl (fun list rank => insert rank.id list) list ↔
      id ∈ list ∨ id ∈ ranks.map GuildRank.id := by
  induction ranks generalizing list with
  | nil => simp
  | cons rank ranks ih =>
    rw [List.foldl_cons, ih, Finset.mem_insert, List.map_cons, List.mem_cons, ← or_assoc,
      or_comm (a := id = rank.id)]

theorem addGuild (a : AccessList) (name : List UInt8) :
    Adds names [.guild name] a (a.addGuild names name) := by
  rw [AccessList.addGuild]
  rcases hg : names.getGuildByName name with _ | guild
  · refine ⟨fun guid => ?_, fun id => ?_, ?_, rfl⟩
    · simp [Entry.players]
    · simp [Entry.ranks, hg]
    · simp
  · refine ⟨fun guid => ?_, fun id => ?_, ?_, rfl⟩
    · simp [Entry.players]
    · rw [mem_foldl_insert]
      simp [Entry.ranks, hg]
    · simp

theorem addGuildRank (a : AccessList) (name guildName : List UInt8) :
    Adds names [.rank name guildName] a (a.addGuildRank names name guildName) := by
  have hplayers : ∀ guid, ¬∃ e ∈ [Entry.rank name guildName], guid ∈ e.players names := by
    simp [Entry.players]
  rw [AccessList.addGuildRank]
  rcases hg : names.getGuildByName guildName with _ | guild
  · refine ⟨fun guid => ?_, fun id => ?_, ?_, rfl⟩
    · rw [or_iff_left (hplayers guid)]
    · simp [Entry.ranks, hg]
    · simp
  · dsimp only
    rcases hr : guild.getRankByName name with _ | rank
    · refine ⟨fun guid => ?_, fun id => ?_, ?_, rfl⟩
      · rw [or_iff_left (hplayers guid)]
      · simp [Entry.ranks, hg, hr]
      · simp
    · refine ⟨fun guid => ?_, fun id => ?_, ?_, rfl⟩
      · rw [or_iff_left (hplayers guid)]
      · simp [Entry.ranks, hg, hr, or_comm]
      · simp

theorem parseLine (a : AccessList) {line : List UInt8} (htab : tab ∉ line) :
    Adds names [reading line] a (a.parseLine names line) := by
  rw [AccessList.parseLine, reading]
  dsimp only
  rw [trim_tabs htab]
  by_cases hskip : Skipped (trimString line)
  · rw [if_pos hskip, if_pos hskip]
    exact .nobody a
  · rw [if_neg hskip, if_neg hskip]
    generalize asLowerCaseString (trimString line) = text
    rcases hat : text.idxOf? atSign with _ | n
    · rw [Entry.read_of_notMem (List.idxOf?_eq_none_iff.1 hat)]
      dsimp only
      split_ifs
      · exact .everyone_self a
      · exact .nobody a
      · exact .addPlayer a text
      · exact .nobody a
    · rw [Entry.read_of_idxOf hat]
      dsimp only
      split_ifs
      · exact .addGuild a _
      · exact .addGuildRank a _ _

theorem foldl (a : AccessList) {ls : List (List UInt8)} (htab : ∀ line ∈ ls, tab ∉ line) :
    Adds names (ls.map reading) a (ls.foldl (AccessList.parseLine names) a) := by
  induction ls generalizing a with
  | nil => exact .nil a
  | cons line ls ih =>
    exact (parseLine a (htab line List.mem_cons_self)).append
      (ih _ fun l hl => htab l (List.mem_cons_of_mem _ hl))

end Adds

/-! ## The text that is kept -/

/-- The lines of a text that are not empty. -/
def lines (text : List UInt8) : List (List UInt8) := (text.splitOn newline).filter (· ≠ [])

theorem validList_eq (text : List UInt8) :
    validList text = closed newline (lines (text.filter isValidChar)) := by
  rw [validList, filter_getlines, lines]

theorem notMem_of_mem_lines {text line : List UInt8} (h : line ∈ lines text) : newline ∉ line := by
  rw [lines, ← filter_getlines] at h
  exact notMem_of_mem_getlines (List.mem_filter.1 h).1

theorem mem_of_mem_lines {text line : List UInt8} {c : UInt8} (h : line ∈ lines text)
    (hc : c ∈ line) : c ∈ text := by
  rw [lines, ← filter_getlines] at h
  exact mem_of_mem_getlines (List.mem_filter.1 h).1 hc

/-- The lines of the text that is kept. -/
theorem lines_validList (text : List UInt8) :
    lines (validList text) = lines (text.filter isValidChar) := by
  rw [validList_eq, lines, ← filter_getlines,
    getlines_closed fun _ h => notMem_of_mem_lines h]
  exact List.filter_eq_self.2 fun _ h => (List.mem_filter.1 h).2

theorem isValidChar_of_mem_validList {text : List UInt8} {c : UInt8} (h : c ∈ validList text) :
    isValidChar c = true := by
  rw [validList_eq, closed, List.mem_flatMap] at h
  obtain ⟨line, hline, hc⟩ := h
  rcases List.mem_append.1 hc with hc | hc
  · exact (List.mem_filter.1 (mem_of_mem_lines hline hc)).2
  · rw [List.mem_singleton.1 hc]
    decide

/-- What is kept is kept as it is. -/
theorem validList_validList (text : List UInt8) : validList (validList text) = validList text := by
  rw [validList_eq (validList text), validList_eq text,
    List.filter_eq_self.2 fun _ h => isValidChar_of_mem_validList (validList_eq text ▸ h),
    ← validList_eq text, lines_validList, validList_eq]

namespace AccessList

/-- The list is made from the text that is kept alone. -/
theorem parseList_eq (names : Names) (a : AccessList) (text : List UInt8) :
    a.parseList names text = (explodeString (validList text) newline 100).foldl (parseLine names)
      { list := validList text } := by
  rw [parseList]
  split_ifs with h
  · subst h
    rfl
  · rfl

theorem adds_parseList (names : Names) (a : AccessList) (text : List UInt8) :
    Adds names ((explodeString (validList text) newline 100).map reading)
      { list := validList text } (a.parseList names text) := by
  rw [parseList_eq]
  refine .foldl _ fun line hline htab => ?_
  have hvalid := isValidChar_of_mem_validList (mem_of_mem_explode hline htab)
  exact absurd hvalid (by decide)

/-- What is kept is read as the text was, whatever was in the list. -/
theorem parseList_getList (names : Names) (a b : AccessList) (text : List UInt8) :
    b.parseList names (a.parseList names text).getList = a.parseList names text := by
  rw [getList, (adds_parseList names a text).list, parseList_eq, validList_validList, parseList_eq]

end AccessList

/-! ## Texts that are read as they say -/

/-- The list is what the lines of the text say. -/
structure Exact (names : Names) (text : List UInt8) (a : AccessList) : Prop where
  players : ∀ guid, guid ∈ a.playerList ↔ ∃ line ∈ lines text, guid ∈ (meaning line).players names
  ranks : ∀ id, id ∈ a.guildRankList ↔ ∃ line ∈ lines text, id ∈ (meaning line).ranks names
  everyone : a.allowEveryone = true ↔ ∃ line ∈ lines text, meaning line = .everyone

/-- Then a player may enter whom a line names, or whose rank it names. -/
theorem Exact.isInList_iff {names : Names} {text : List UInt8} {a : AccessList}
    (h : Exact names text a) (guid : BitVec 32) (guildRank : Option (BitVec 32)) :
    a.isInList guid guildRank = true ↔ ∃ line ∈ lines text, meaning line = .everyone ∨
      guid ∈ (meaning line).players names ∨
        ∃ id ∈ guildRank, id ∈ (meaning line).ranks names := by
  have hranks : (guildRank.any fun id => decide (id ∈ a.guildRankList)) = true ↔
      ∃ line ∈ lines text, ∃ id ∈ guildRank, id ∈ (meaning line).ranks names := by
    rw [Option.any_eq_true]
    constructor
    · rintro ⟨id, hid, hmem⟩
      obtain ⟨line, hline, hrank⟩ := (h.ranks id).1 (of_decide_eq_true hmem)
      exact ⟨line, hline, id, hid, hrank⟩
    · rintro ⟨line, hline, id, hid, hrank⟩
      exact ⟨id, hid, decide_eq_true ((h.ranks id).2 ⟨line, hline, hrank⟩)⟩
  rw [AccessList.isInList, Bool.or_eq_true, Bool.or_eq_true, h.everyone, decide_eq_true_iff,
    h.players, hranks, or_assoc]
  simp only [and_or_left, exists_or]

/-- Misread lines do no harm: whom they say is let in, and who is let in by them is said, by other
    lines. -/
structure Harmless (names : Names) (text : List UInt8) : Prop where
  players : ∀ line ∈ lines text, Misread line → ∀ guid ∈ (meaning line).players names,
    ∃ line' ∈ lines text, guid ∈ (reading line').players names
  ranks : ∀ line ∈ lines text, Misread line → ∀ id ∈ (meaning line).ranks names,
    ∃ line' ∈ lines text, id ∈ (reading line').ranks names
  others : ∀ line ∈ lines text, Misread line → ∀ id ∈ (reading line).ranks names,
    ∃ line' ∈ lines text, id ∈ (meaning line').ranks names

/-- A text of allowed characters, with as many lines as are read. -/
theorem explodeString_validList {text : List UInt8} (hchars : ∀ c ∈ text, isValidChar c = true)
    (hlines : (lines text).length ≤ 100) :
    explodeString (validList text) newline 100 = lines text ++ [[]] := by
  rw [validList_eq, List.filter_eq_self.2 hchars]
  exact explode_closed (fun _ h => notMem_of_mem_lines h) (Int.ofNat_le.2 hlines)

/-- The list of such a text is what is read in its lines. -/
theorem parseList_spec (names : Names) (a : AccessList) {text : List UInt8}
    (hchars : ∀ c ∈ text, isValidChar c = true) (hlines : (lines text).length ≤ 100) :
    (∀ guid, guid ∈ (a.parseList names text).playerList ↔
      ∃ line ∈ lines text, guid ∈ (reading line).players names) ∧
    (∀ id, id ∈ (a.parseList names text).guildRankList ↔
      ∃ line ∈ lines text, id ∈ (reading line).ranks names) ∧
    ((a.parseList names text).allowEveryone = true ↔
      ∃ line ∈ lines text, reading line = .everyone) := by
  have h := a.adds_parseList names text
  rw [explodeString_validList hchars hlines, List.map_append] at h
  have hempty : [[]].map reading = [.nobody] := by decide
  rw [hempty] at h
  refine ⟨fun guid => ?_, fun id => ?_, ?_⟩
  · rw [h.players]
    simp [Entry.players]
  · rw [h.ranks]
    simp [Entry.ranks]
  · rw [h.everyone]
    simp

/-- For every text, what is kept is read as the text was. A text of allowed characters and 100 lines
    at most is read as it says, whatever was in the list, exactly if its misread lines do no harm. -/
theorem parseList_exact_iff (names : Names) :
    (∀ (text : List UInt8) (a b : AccessList),
      b.parseList names (a.parseList names text).getList = a.parseList names text) ∧
    ∀ text : List UInt8, (∀ c ∈ text, isValidChar c = true) → (lines text).length ≤ 100 →
      ((∀ a : AccessList, Exact names text (a.parseList names text)) ↔ Harmless names text) := by
  refine ⟨fun text a b => a.parseList_getList names b text, fun text hchars hlines => ?_⟩
  have hread : ∀ {line}, ¬Misread line → reading line = meaning line := fun {line} h =>
    not_not.1 ((misread_iff line).not.1 h)
  constructor
  · intro h
    obtain ⟨hplayers, hranks, -⟩ := parseList_spec names {} hchars hlines
    -- The empty list is enough to see the harm of a misread line.
    have hexact := h {}
    refine ⟨fun line hline _ guid hguid => ?_, fun line hline _ id hid => ?_,
      fun line hline _ id hid => ?_⟩
    · exact (hplayers guid).1 ((hexact.players guid).2 ⟨line, hline, hguid⟩)
    · exact (hranks id).1 ((hexact.ranks id).2 ⟨line, hline, hid⟩)
    · exact (hexact.ranks id).1 ((hranks id).2 ⟨line, hline, hid⟩)
  · intro h a
    obtain ⟨hplayers, hranks, heveryone⟩ := parseList_spec names a hchars hlines
    refine ⟨fun guid => ?_, fun id => ?_, ?_⟩
    · rw [hplayers]
      constructor
      · rintro ⟨line, hline, hguid⟩
        -- A line that is read as it says is on both sides.
        by_cases hmis : Misread line
        · rw [hmis.players_reading] at hguid
          cases hguid
        · exact ⟨line, hline, hread hmis ▸ hguid⟩
      · rintro ⟨line, hline, hguid⟩
        by_cases hmis : Misread line
        · exact h.players line hline hmis guid hguid
        · exact ⟨line, hline, (hread hmis).symm ▸ hguid⟩
    · rw [hranks]
      constructor
      · rintro ⟨line, hline, hid⟩
        by_cases hmis : Misread line
        · exact h.others line hline hmis id hid
        · exact ⟨line, hline, hread hmis ▸ hid⟩
      · rintro ⟨line, hline, hid⟩
        by_cases hmis : Misread line
        · exact h.ranks line hline hmis id hid
        · exact ⟨line, hline, (hread hmis).symm ▸ hid⟩
    · rw [heveryone]
      exact exists_congr fun line => and_congr_right fun _ => reading_eq_everyone_iff line

theorem harmless_of_no_misread (names : Names) {text : List UInt8}
    (h : ∀ line ∈ lines text, ¬Misread line) : Harmless names text :=
  ⟨fun line hline hmis => absurd hmis (h line hline),
    fun line hline hmis => absurd hmis (h line hline),
    fun line hline hmis => absurd hmis (h line hline)⟩

/-- A guild whose leader is number 7 among the ranks. -/
def knights : Names where
  getPlayerByName _ := none
  getGuidByName _ := 0
  getGuildIdByName name := if name = ascii "knights" then 1 else 0
  getGuild id := if id = 1 then some ⟨[⟨7, ascii "leader"⟩]⟩ else none
  loadGuild _ := none

/-- All ranks of the guild are let in. -/
theorem exact_knights :
    Exact knights (ascii "@Knights\n# bob") (({} : AccessList).parseList knights
      (ascii "@Knights\n# bob")) := by
  exact ((parseList_exact_iff knights).2 _ (by decide +kernel) (by decide +kernel)).2
    (harmless_of_no_misread _ (by decide +kernel)) {}

/-- The rank is looked up as `leade`. -/
theorem leader_stays_out :
    ¬Exact knights (ascii "leader@knights") (({} : AccessList).parseList knights
      (ascii "leader@knights")) := by
  intro h
  have hlines : lines (ascii "leader@knights") = [ascii "leader@knights"] := by decide
  have hleader := (h.ranks 7).2 ⟨ascii "leader@knights", by rw [hlines]; exact List.mem_cons_self,
    by decide⟩
  revert hleader
  decide

end Canary.Houses
