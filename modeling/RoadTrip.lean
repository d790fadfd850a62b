import RoadTrip.Main
import RoadTrip.Proofs.Cli.Log
import RoadTrip.Proofs.CostMatrix.Rejection
import RoadTrip.Proofs.CostTable.Lines
import RoadTrip.Proofs.Crossover.Order
import RoadTrip.Proofs.Evolution.Limits
import RoadTrip.Proofs.Evolution.SameOrder
import RoadTrip.Proofs.Evolution.Turns
import RoadTrip.Proofs.ExactSearch.Optimality
import RoadTrip.Proofs.ExactSearch.Reached
import RoadTrip.Proofs.Report.Reading
import RoadTrip.Proofs.Selection.Fallback
import RoadTrip.Proofs.Selection.Tournament
import RoadTrip.Proofs.Trip.Totality
import RoadTrip.Random.Script
import RoadTrip.Proofs.Draw.Outcomes
import RoadTrip.Proofs.Mutation.Relocation
import RoadTrip.Proofs.Mutation.Exchange
import RoadTrip.Proofs.Mutation.Reach
import RoadTrip.Proofs.Selection.Wheel
import RoadTrip.Proofs.ExactSearch.Descent
import RoadTrip.Proofs.CostTable.Acceptance
import RoadTrip.Proofs.CostTable.Append
import RoadTrip.Proofs.Population.Summary
