import Pinboard.Main
import Pinboard.Proofs.Board.Course
import Pinboard.Proofs.Board.Replies
import Pinboard.Proofs.Board.Requests
import Pinboard.Proofs.Board.Size
import Pinboard.Proofs.Board.Texts
import Pinboard.Proofs.Board.Values
import Pinboard.Proofs.Client.Surplus
import Pinboard.Proofs.Client.Together
import Pinboard.Proofs.Connection.Account
import Pinboard.Proofs.Connection.Attribution
import Pinboard.Proofs.Connection.Boundary
import Pinboard.Proofs.Connection.Carrying
import Pinboard.Proofs.Connection.Ending
import Pinboard.Proofs.Connection.InOrder
import Pinboard.Proofs.Connection.Insertion
import Pinboard.Proofs.Frame.Delivery
import Pinboard.Proofs.Frame.Exhaustion
import Pinboard.Proofs.Frame.Reading
import Pinboard.Proofs.Frame.Writing
import Pinboard.Proofs.Json.Grammar
import Pinboard.Proofs.Json.Numbers
import Pinboard.Proofs.Json.Numerals
import Pinboard.Proofs.Json.Passing
import Pinboard.Proofs.Json.Plain
import Pinboard.Proofs.Json.Printing
import Pinboard.Proofs.Json.Records
import Pinboard.Proofs.Json.Tokens
import Pinboard.Proofs.Json.Unique
import Pinboard.Proofs.Json.Values
import Pinboard.Proofs.Log
import Pinboard.Proofs.Message.Documents
import Pinboard.Proofs.Message.RoundTrip
import Pinboard.Proofs.Program.Arguments
import Pinboard.Proofs.Program.Output
import Pinboard.Proofs.Program.Run
import Pinboard.Proofs.Program.Setting
import Pinboard.Proofs.Session
import Pinboard.Proofs.Text.Lines
