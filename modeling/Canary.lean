import Canary.Lib.Transition
import Canary.KV.Store
import Canary.KV.Invariant
import Canary.KV.Refinement
import Canary.Lib.Text
import Canary.KV.Sql
import Canary.KV.Keys
import Canary.Database.Batches
import Canary.Database.Insert
import Canary.Lib.Interning
import Canary.Map.MapCache
import Canary.Map.Spectators
import Canary.Lib.Trie
import Canary.Lib.Contributions
import Canary.Lib.FieldStream
import Canary.Lib.Escape
import Canary.Game.Trade
import Canary.Items.Item
import Canary.Lib.Tagged
import Canary.Items.Serialize
import Canary.Items.ReadBack
import Canary.Items.Restore
import Canary.Items.Lossless
import Canary.Items.RoundTrip
import Canary.Scheduling.SaveManager
import Canary.Scheduling.WakeUp
import Canary.Scheduling.ScheduledEvents
import Canary.Decay.Model
import Canary.Decay.Registration
import Canary.Decay.Timer
import Canary.Lib.Memory
import Canary.Network.Xtea
import Canary.Network.Message
import Canary.Network.Pipeline
import Canary.Network.Reads
import Canary.Game.Bank
import Canary.Inventory.Object
import Canary.Inventory.World
import Canary.Inventory.Queries
import Canary.Inventory.AddItem
import Canary.Inventory.Units
import Canary.Inventory.Destination
import Canary.Inventory.Conservation
import Canary.Inventory.MoveItem
import Canary.Game.Party
import Canary.Lib.FlagWord
import Canary.Map.Zones
import Canary.Map.QTree
import Canary.Map.FileStream
import Canary.Map.FileReads
import Canary.Map.NodeTree
import Canary.Map.NodeReads
import Canary.Map.Loader
import Canary.Tiles.Tile
import Canary.Tiles.Flags
import Canary.Tiles.Stack
import Canary.Tiles.Description
import Canary.Map.Description
import Canary.Network.OutputBuffer
import Canary.Lib.Levels
import Canary.Players.Experience
import Canary.Players.Vocation
import Canary.Players.Skills
import Canary.Players.Mounts
import Canary.Players.Charms
import Canary.Players.Prey
import Canary.Players.MonsterGrid
import Canary.Account.Premium
import Canary.Account.Coins
import Canary.Login.Items
import Canary.Login.Player
import Canary.Conditions.Attributes
import Canary.Conditions.Speed
import Canary.Conditions.Stored
import Canary.Conditions.StoredReads
import Canary.Conditions.StoredRoom
import Canary.Monsters.Targets
import Canary.Monsters.SearchTarget
import Canary.Monsters.DistanceStep
import Canary.Monsters.Spawns
import Canary.Lib.SwapRemove
import Canary.Lib.Window
import Canary.Lib.InPlace
import Canary.Map.WalkCache
import Canary.Game.CreatureChecks
import Canary.Items.ContainerPages
import Canary.Players.Equipment
import Canary.Lib.GridLine
import Canary.Map.SightLine
import Canary.Lib.BreadthFirst
import Canary.Inventory.Stash
import Canary.Inventory.Locker
import Canary.Map.AStarNodes
import Canary.Map.Pathfinding
import Canary.Inventory.WhereEver
import Canary.Inventory.AddMoney
import Canary.Inventory.RemoveItem
import Canary.Inventory.RemoveCount
import Canary.Lib.CachedSum
import Canary.Inventory.Weights
import Canary.Utils.WildcardTree
import Canary.Inventory.ContainerIterator
import Canary.Lib.Trace
import Canary.Lib.SortedList
import Canary.Utils.ArrayList
import Canary.Utils.VectorSet
import Canary.Lib.Lines
import Canary.Houses.AccessList
import Canary.Houses.Rent
import Canary.Lib.Scatter
import Canary.Combat.AreaCombat
import Canary.Lib.Until
import Canary.Conditions.Feared
import Canary.KV.Proto
import Canary.Players.Loyalty
import Canary.Lib.Exponents
import Canary.Security.RSA
import Canary.Lib.Base64
import Canary.Lib.Der
import Canary.Security.KeyFile
import Canary.Lib.Sha1
import Canary.Lib.Hotp
import Canary.Utils.SHA1
import Canary.Utils.Token
import Canary.Inventory.Interchange
import Canary.Lib.Odometer
import Canary.Map.Areas
import Canary.Conditions.DamageOverTime
import Canary.Houses.Beds
import Canary.Houses.Wrapping
import Canary.Houses.Clearing
import Canary.Houses.Depot
import Canary.Lib.Orbit
import Canary.Map.Teleports
import Canary.Game.Chat
import Canary.Game.ChatWindows
import Canary.Lib.RunningSums
import Canary.Network.Checksum
import Canary.Map.ClientView
import Canary.Map.ClientSync
import Canary.Network.KnownCreatures
import Canary.Combat.ChainTargets
import Canary.Network.ConnectBan
import Canary.Lib.Buckets
import Canary.Map.Population
