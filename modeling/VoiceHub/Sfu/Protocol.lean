import Mathlib

/-!
The signaling messages a room queues to its peers.

Chat, ping, candidate and audio messages carry nothing a roster or a screen share depends
on; they are all `other`.
-/

namespace VoiceHub.Sfu

abbrev PeerId := String

abbrev Token := ℕ

inductive ScreenVideoCodec | av1 | vp9
  deriving DecidableEq

inductive ScreenShareMode | sharp | motion
  deriving DecidableEq

inductive ScreenShareReason | notFound | invalidToken | alreadyPublishing | internal
  deriving DecidableEq

structure PeerInfo where
  id : PeerId
  displayName : String
  clientId : String
  selfMuted : Bool
  deafened : Bool
  chatOnly : Bool
  screenSharing : Bool
  screenSharingHasAudio : Bool
  screenSharingVideoCodec : Option ScreenVideoCodec
  deriving DecidableEq

/-- Server to client. -/
inductive Msg
  | welcome (id : PeerId) (peers : List PeerInfo)
  | peerJoined (info : PeerInfo)
  | peerLeft (id : PeerId)
  | peerInfo (info : PeerInfo)
  | peerState (id : PeerId) (selfMuted deafened : Bool)
  | screenShareAvailable (publisherId : PeerId) (hasSystemAudio : Bool)
      (videoCodec : ScreenVideoCodec) (mode : ScreenShareMode)
  | screenShareEnded (publisherId : PeerId)
  | screenShareStarted (sessionToken : Token)
  | screenShareError (publisherId : PeerId) (reason : ScreenShareReason)
  | screenShareEncodePause
  | screenShareEncodeResume
  | offer (publisherId : PeerId)
  | answer
  | other
  deriving DecidableEq

end VoiceHub.Sfu
