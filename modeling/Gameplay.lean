import Gameplay.Blocking
import Gameplay.Main
import Gameplay.Proofs.Effects
import Gameplay.Proofs.Layout
import Gameplay.Proofs.Places
import Gameplay.Proofs.ScriptEquivalence
import Gameplay.Proofs.Moments
import Gameplay.Proofs.Host
import Gameplay.Proofs.Coherence
import Gameplay.Proofs.Suspension
import Gameplay.Proofs.Demands
import Gameplay.Proofs.Declarations
import Gameplay.Proofs.Scoping
import Gameplay.Proofs.Instances
import Gameplay.Proofs.Turns
import Gameplay.Proofs.Resumption
import Gameplay.Proofs.Transit
import Gameplay.Proofs.Issuance
import Gameplay.Proofs.WaitTime
import Gameplay.Proofs.Calls
import Gameplay.Proofs.RoomEntry
import Gameplay.Proofs.Closing
import Gameplay.Proofs.Arrival
import Gameplay.Proofs.FreshStart
import Gameplay.Proofs.Faults
import Gameplay.Proofs.Ordering
import Gameplay.Proofs.Encounters
import Gameplay.Proofs.Plans
import Gameplay.Proofs.Repeats
import Gameplay.Proofs.Completion
import Gameplay.Proofs.Deeds
import Gameplay.Proofs.Dispatch
import Gameplay.Proofs.Ledger
import Gameplay.Proofs.Conservation
import Gameplay.Proofs.Destruction
import Gameplay.Proofs.Allocation
import Gameplay.Proofs.Typing
import Gameplay.Proofs.Freshness
import Gameplay.Proofs.Ticks
import Gameplay.Proofs.Creation
import Gameplay.Proofs.Emission
import Gameplay.Proofs.Rounds
import Gameplay.Proofs.CustomEvents
import Gameplay.Proofs.EditorCheck
import Gameplay.Proofs.GameEnd
import Gameplay.Proofs.FrameTime
import Gameplay.Proofs.Numerals
import Gameplay.Proofs.JsonText
import Gameplay.Proofs.Records
import Gameplay.Proofs.Nesting
import Gameplay.Proofs.Saving
import Gameplay.Proofs.Keys
import Gameplay.Proofs.Guises
import Gameplay.Proofs.Presentation
import Gameplay.Proofs.Overlaps
import Gameplay.Proofs.Exclusion
import Gameplay.Proofs.Doubles
import Gameplay.Proofs.AskedTicks
import Gameplay.Proofs.Confinement
import Gameplay.Proofs.Population
import Gameplay.Proofs.Reports
import Gameplay.Proofs.RandomDraws
import Gameplay.Proofs.Resolution
import Gameplay.Proofs.Compilation
import Gameplay.Proofs.CollisionPairs
import Gameplay.Proofs.FailedActions
import Gameplay.Proofs.Partners
import Gameplay.Proofs.Locality
import Gameplay.Proofs.IniText
import Gameplay.Proofs.KeyHistory
import Gameplay.Proofs.SavedSettings
import Gameplay.Proofs.ToastTime
import Gameplay.Proofs.Limits
import Gameplay.Proofs.Forest
import Gameplay.Proofs.Trees
import Gameplay.Proofs.Walks
import Gameplay.Proofs.Aging
import Gameplay.Proofs.Approach
