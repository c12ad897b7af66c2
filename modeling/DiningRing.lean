import DiningRing.Decoding
import DiningRing.Main
import DiningRing.Proofs.Neighbours
import DiningRing.Proofs.State
import DiningRing.Proofs.Step
import DiningRing.Proofs.Conservation
import DiningRing.Proofs.Soundness
import DiningRing.Proofs.Seating
import DiningRing.Proofs.Flaws
import DiningRing.Proofs.Course
import DiningRing.Proofs.Safety
import DiningRing.Proofs.Turn
import DiningRing.Proofs.Tally
import DiningRing.Proofs.TableOrder
import DiningRing.Proofs.Deadlock
import DiningRing.Proofs.Pace
import DiningRing.Proofs.Throughput
import DiningRing.Proofs.Path
import DiningRing.Proofs.Confluence
import DiningRing.Proofs.Stalemate
import DiningRing.Proofs.Choices
import DiningRing.Proofs.Fairness
import DiningRing.Proofs.Outcomes
import DiningRing.Proofs.Histories
import DiningRing.Proofs.Budgets
import DiningRing.Proofs.Scripts
import DiningRing.Proofs.Live.Agenda
import DiningRing.Proofs.Live.View
import DiningRing.Proofs.Announcements
import DiningRing.Proofs.Live.AtWork
import DiningRing.Proofs.Live.Interleaving
import DiningRing.Proofs.Live.Seating
import DiningRing.Proofs.Live.Refinement
import DiningRing.Proofs.Live.Parallel
import DiningRing.Proofs.Recorders
import DiningRing.Proofs.FanOut
import DiningRing.Proofs.Waiting
import DiningRing.Proofs.Live.Health
import DiningRing.Proofs.Words
import DiningRing.Proofs.Live.Layout
import DiningRing.Proofs.Live.Timely
import DiningRing.Proofs.Live.Punctual
import DiningRing.Proofs.Live.Timeline
import DiningRing.Proofs.Live.Custody
import DiningRing.Proofs.Live.Presence
import DiningRing.Proofs.Live.Endings
import DiningRing.Proofs.Live.Survivors
import DiningRing.Proofs.Live.Errands
import DiningRing.Proofs.Live.Cancellation
import DiningRing.Proofs.Live.Forfeit
import DiningRing.Proofs.Live.Rounds
import DiningRing.Proofs.Live.Attempts
import DiningRing.Proofs.Live.Sittings
import DiningRing.Proofs.Live.Interruptions
import DiningRing.Proofs.Search.Schedules
import DiningRing.Proofs.Search.Knowledge
import DiningRing.Proofs.Search.Visits
import DiningRing.Proofs.Search.Reachable
import DiningRing.Proofs.Search.Verdict
import DiningRing.Proofs.Search.Starvation
import DiningRing.Proofs.Search.Truncation
import DiningRing.Proofs.Json.Numerals
import DiningRing.Proofs.Json.Strings
import DiningRing.Proofs.Json.Rendering
import DiningRing.Proofs.Json.Passing
import DiningRing.Proofs.Json.Reading
import DiningRing.Proofs.RoundTrip
import DiningRing.Proofs.Numerals
import DiningRing.Proofs.Configuration
