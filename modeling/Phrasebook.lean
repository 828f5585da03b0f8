import Phrasebook.Main
import Phrasebook.Proofs.Inert
import Phrasebook.Proofs.Consistent
import Phrasebook.Proofs.Layout
import Phrasebook.Proofs.Pass
import Phrasebook.Proofs.Reachable
import Phrasebook.Proofs.InsertedTargets
import Phrasebook.Proofs.Convergence
import Phrasebook.Proofs.SecondPass
import Phrasebook.Proofs.Octets
import Phrasebook.Proofs.Respelling
import Phrasebook.Proofs.MatchOrder
import Phrasebook.Proofs.FittingIdentities
import Phrasebook.Proofs.Resolution
import Phrasebook.Proofs.SideBySide
import Phrasebook.Proofs.Decoding
import Phrasebook.Proofs.Discovery
import Phrasebook.Proofs.DocumentPath
import Phrasebook.Proofs.TreeRun
import Phrasebook.Proofs.DryRun
import Phrasebook.Proofs.Arrivals
import Phrasebook.Proofs.Completion
import Phrasebook.Proofs.LastingDiscovery
import Phrasebook.Proofs.SharedFiles
import Phrasebook.Proofs.AnySchedule
import Phrasebook.Proofs.SecondRun
import Phrasebook.Proofs.StreamAndFile
import Phrasebook.Proofs.ChangedDocuments
import Phrasebook.Proofs.SafeTables
import Phrasebook.Proofs.TableInForce
import Phrasebook.Proofs.Obstruction
import Phrasebook.Proofs.WriteAccess
import Phrasebook.Proofs.Rearrangement
import Phrasebook.Proofs.Overlay
import Phrasebook.Proofs.Locality
import Phrasebook.Proofs.AbsentPhrases
import Phrasebook.Proofs.FirstFault
import Phrasebook.Proofs.PathOrder
import Phrasebook.Proofs.WantedFiles
import Phrasebook.Proofs.Slices
