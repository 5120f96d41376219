import Hand2.Deadline.Agreement
import Hand2.Pushes.Admission
import Hand2.Feedback.Composition
import Hand2.Feedback.Interference
import Hand2.Scores.Alignment
import Hand2.Checkout.Replace
import Hand2.Checkout.Subtree
import Hand2.Cache.Repository
import Hand2.Grading.Completion
import Hand2.Config.Load
import Hand2.Invite.Students
import Hand2.Announce.Repeat
import Hand2.Announce.Incomplete
import Hand2.Clone.Refinement
import Hand2.Deadline.DayByDay
import Hand2.Feedback.Push
import Hand2.Fetch.Batched
import Hand2.Fetch.Pages
import Hand2.Pushes.HeadLookup
import Hand2.Clone.Bulk
import Hand2.Deadline.RealDates
import Hand2.Announce.Escaped
import Hand2.Spreadsheet.Retrieve
import Hand2.Invite.UsernameFile
import Hand2.Feedback.Intact
import Hand2.Config.Rejected
import Hand2.Config.Inside
import Hand2.Config.Ring
import Hand2.InMemory.StringArray
import Hand2.Grading.Drain
import Hand2.Grading.Finish
import Hand2.Grading.Capture
import Hand2.Fetch.CurlGroup
import Hand2.Command.Accepted
import Hand2.Json.Bodies
import Hand2.Announce.Bodies
import Hand2.Announce.ReadBack
import Hand2.Announce.Rehearsal
import Hand2.Pushes.Later
import Hand2.Invite.Team
import Hand2.Announce.Graded
import Hand2.Spreadsheet.Bodies
