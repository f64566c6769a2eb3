import VoiceHub.Lib.Machine
import VoiceHub.Lib.Locks
import VoiceHub.Lib.Pool
import VoiceHub.Lib.HashMap
import VoiceHub.Lib.Window
import VoiceHub.Lib.Keyed
import VoiceHub.Lib.Bitmap
import VoiceHub.Lib.Join
import VoiceHub.Lib.Text
import VoiceHub.Lib.Percent
import VoiceHub.Lib.Base64
import VoiceHub.Lib.Form
import VoiceHub.Lib.Ip
import VoiceHub.Lib.Transducer
import VoiceHub.Lib.Bits
import VoiceHub.Lib.Reader
import VoiceHub.Lib.Json
import VoiceHub.Lib.Struct
import VoiceHub.Lib.Checked
import VoiceHub.Lib.Radix
import VoiceHub.Lib.RingBuffer
import VoiceHub.Client.AudioSlots
import VoiceHub.Auth.ConnPass
import VoiceHub.Auth.SessionCookie
import VoiceHub.Auth.Password
import VoiceHub.Auth.Revocation
import VoiceHub.Auth.Disconnect
import VoiceHub.Auth.Limiter
import VoiceHub.Http.Ratelimit
import VoiceHub.Http.ClientIp
import VoiceHub.Http.Route
import VoiceHub.Http.Glob
import VoiceHub.Http.Handlers
import VoiceHub.Http.Server
import VoiceHub.Http.Ledger
import VoiceHub.Http.Access
import VoiceHub.Files.Store
import VoiceHub.Files.Disposition
import VoiceHub.Files.Sniff
import VoiceHub.Files.Upload
import VoiceHub.Files.Transfers
import VoiceHub.Sfu.Audio.SlotStream
import VoiceHub.Sfu.Audio.Skips
import VoiceHub.Sfu.Audio.Slots
import VoiceHub.Sfu.Audio.SlotPool
import VoiceHub.Sfu.Audio.Room
import VoiceHub.Sfu.Audio.Departed
import VoiceHub.Sfu.Audio.Members
import VoiceHub.Sfu.Audio.Subscriptions
import VoiceHub.Sfu.Audio.Routing
import VoiceHub.Sfu.Audio.Sources
import VoiceHub.Sfu.Codec.ChainTracker
import VoiceHub.Sfu.Protocol
import VoiceHub.Sfu.Net.Timer
import VoiceHub.Sfu.Net.MuxLocks
import VoiceHub.Sfu.Net.Stun
import VoiceHub.Sfu.Net.Routes
import VoiceHub.Sfu.Screen.LayerCtl
import VoiceHub.Sfu.Screen.Forward
import VoiceHub.Sfu.Room.State
import VoiceHub.Sfu.Room.Ops
import VoiceHub.Sfu.Room.Ownership
import VoiceHub.Sfu.Room.Exclusive
import VoiceHub.Sfu.Room.Grace
import VoiceHub.Sfu.Room.Links
import VoiceHub.Sfu.Room.Subscribers
import VoiceHub.Sfu.Room.Stale
import VoiceHub.Sfu.Room.Queues
import VoiceHub.Sfu.Room.Dynacast
import VoiceHub.Lib.Posts
import VoiceHub.Sfu.Room.Notices
import VoiceHub.Sfu.Room.Feed
import VoiceHub.Sfu.Room.Takeover
import VoiceHub.Client.Roster
import VoiceHub.Sfu.Room.Roster
import VoiceHub.Sfu.Room.Shares
import VoiceHub.Lib.Writes
import VoiceHub.Client.RoomPeers
import VoiceHub.Sfu.Room.Deltas
import VoiceHub.Presence.Hub
import VoiceHub.Hotkey.Keys
import VoiceHub.Hotkey.Capture
import VoiceHub.Hotkey.Fire
import VoiceHub.Sfu.Dd.Parser
import VoiceHub.Sfu.Dd.Format
import VoiceHub.Sfu.Dd.RoundTrip
import VoiceHub.Sfu.Dd.Checked
import VoiceHub.Sfu.Wire.Messages
import VoiceHub.Client.Protocol
import VoiceHub.Client.Reconnect
import VoiceHub.Client.ReconnectScheduler
import VoiceHub.Client.ScreenPublish
import VoiceHub.Client.Session
import VoiceHub.Client.Mute
import VoiceHub.Client.Chat
import VoiceHub.Client.ChatText
import VoiceHub.Client.FrameAdapter
import VoiceHub.Sfu.Wire.Relay
import VoiceHub.Sfu.Wire.Requests
import VoiceHub.Util.Ulid
