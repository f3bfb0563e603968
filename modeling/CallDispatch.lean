import CallDispatch.CommandLine.Outcome
import CallDispatch.Fanout.Listening
import CallDispatch.Job.CommandHandler
import CallDispatch.Main
import CallDispatch.Tracking.Session
import CallDispatch.Proofs.Master.Grants
import CallDispatch.Proofs.Master.Traffic
import CallDispatch.Proofs.Master.Answers
import CallDispatch.Proofs.Cluster.Partition
import CallDispatch.Proofs.Job.Windows
import CallDispatch.Proofs.Job.Cuts
import CallDispatch.Proofs.Job.ByValue
import CallDispatch.Proofs.Records
import CallDispatch.Proofs.Pull.Schedule
import CallDispatch.Proofs.Pull.Neighbours
import CallDispatch.Proofs.Pull.Alone
import CallDispatch.Proofs.Fanout.Timeline
import CallDispatch.Proofs.Fanout.Consumption
import CallDispatch.Proofs.Fanout.Clocked
import CallDispatch.Proofs.Fanout.Stopping
import CallDispatch.Proofs.Fanout.Shifts
import CallDispatch.Proofs.Fanout.Misplaced
import CallDispatch.Proofs.Tracking.Provenance
import CallDispatch.Proofs.Tracking.Collecting
import CallDispatch.Proofs.Tracking.Vigil
import CallDispatch.Proofs.Tracking.WaysOut
import CallDispatch.Proofs.Tracking.Tallies
import CallDispatch.Proofs.Tracking.Confluence
import CallDispatch.Proofs.Tracking.Unraised
import CallDispatch.Proofs.Tracking.Losses
import CallDispatch.Proofs.Tracking.SinglePass
import CallDispatch.Proofs.Tracking.Enrolment
import CallDispatch.Proofs.Tracking.Sightings
