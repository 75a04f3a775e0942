import Kinewright.Edits.Catalogue

/-!
# Edits of the tracks and of the mix

`operation.rs`: tracks, their entries of the mix, the buses and the master.
-/

namespace Kinewright.Edits

open Fallible Model Document

def Document.setMix (doc : Document) (audioMix : AudioMix) : Document := { doc with audioMix }

/-! ## Tracks -/

/-- `add_track`. -/
def addTrack (doc : Document) (track : Track) : Except OpError Document := do
  refuse (track.id ∈ doc.tracks.map Track.id) (.duplicateTrack track.id)
  refuse (track.clips ≠ []) (.newTrackNotEmpty track.id)
  .ok { doc with tracks := doc.tracks ++ [track] }

/-- The mix without the track. A bus that no track is routed to any more is removed. -/
def dropTrack (mix : AudioMix) (id : TrackId) : AudioMix :=
  let buses := mix.buses.map fun bus =>
    { bus with
      tracks := bus.tracks.filter fun track => track ≠ id
      duckingSidechainTracks := bus.duckingSidechainTracks.filter fun track => track ≠ id }
  { mix with
    buses := buses.filter fun bus => bus.tracks ≠ []
    tracks := mix.tracks.filter fun entry => entry.track ≠ id }

/-- `remove_track`. -/
def removeTrack (doc : Document) (id : TrackId) : Except OpError Document := do
  let tracks ← removeFirst (.missingTrack id) (fun track => track.id = id) doc.tracks
  .ok { doc with tracks, audioMix := dropTrack doc.audioMix id }

/-- `set_track_sync_lock`. -/
def setTrackSyncLock (doc : Document) (id : TrackId) (locked : Bool) : Except OpError Document := do
  refuse (id ∉ doc.tracks.map Track.id) (.missingTrack id)
  .ok { doc with
    tracks := doc.tracks.modifyFirst (fun track => track.id = id) fun track =>
      { track with syncLock := locked } }

/-! ## The mix of a track -/

/-- `TrackMix::is_neutral`. -/
def isNeutral (entry : TrackMix) : Bool :=
  entry.gainTenthDb = 0 && entry.panPercent = 0 && entry.gainCurve.isNone && entry.panCurve.isNone &&
    !entry.mute && !entry.solo

/-- `store_track_mix`: a neutral entry is removed. -/
def storeTrackMix (doc : Document) (entry : TrackMix) : Except OpError Document := do
  validateTrackMixValues entry
  validateTrackMixAutomation entry doc.duration
  .ok (setMix doc { doc.audioMix with
    tracks :=
      if isNeutral entry then doc.audioMix.tracks.filter fun stored => stored.track ≠ entry.track
      else upsert TrackMix.track entry doc.audioMix.tracks })

/-- `set_track_mix`: the curves are kept. -/
def setTrackMix (doc : Document) (track : TrackId) (gainTenthDb panPercent : Int32) (mute solo : Bool) :
    Except OpError Document := do
  refuse (track ∉ doc.tracks.map Track.id) (.missingTrack track)
  let stored := doc.audioMix.track track
  storeTrackMix doc
    { track := track
      gainTenthDb := gainTenthDb
      panPercent := panPercent
      gainCurve := stored.gainCurve
      panCurve := stored.panCurve
      mute := mute
      solo := solo }

/-- `set_track_automation`. -/
def setTrackAutomation (doc : Document) (track : TrackId) (parameter : String)
    (curve : Option AutomationCurve) : Except OpError Document := do
  refuse (track ∉ doc.tracks.map Track.id) (.missingTrack track)
  refuse (parameter ∉ trackAutomationParameters) (.unknownTrackAutomationParameter parameter)
  let entry := doc.audioMix.track track
  storeTrackMix doc
    (if parameter = "gain_tenth_db" then { entry with gainCurve := curve }
      else { entry with panCurve := curve })

/-! ## Buses and the master -/

/-- `upsert_audio_bus`. -/
def upsertAudioBus (doc : Document) (bus : AudioBus) : Except OpError Document := do
  validateAudioBus doc bus
  .ok (setMix doc { doc.audioMix with buses := upsert AudioBus.id bus doc.audioMix.buses })

/-- `remove_audio_bus`. -/
def removeAudioBus (doc : Document) (id : AudioBusId) : Except OpError Document := do
  let buses ← removeFirst (.missingAudioBus id) (fun bus => bus.id = id) doc.audioMix.buses
  .ok (setMix doc { doc.audioMix with buses })

/-- `set_audio_master`. -/
def setAudioMaster (doc : Document) (master : AudioMaster) : Except OpError Document := do
  validateAudioMaster doc master
  .ok (setMix doc { doc.audioMix with master })

end Kinewright.Edits
