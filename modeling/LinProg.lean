import LinProg.Program
import LinProg.Dictionary.Text
import LinProg.ModelFile
import LinProg.Command.FileTree
import LinProg.Main
import LinProg.Proofs.Dictionary.Termination
import LinProg.Proofs.Dictionary.Encoding
import LinProg.Proofs.Program
import LinProg.Proofs.Session
import LinProg.Proofs.Dictionary.History
import LinProg.Proofs.Dictionary.Feasibility
import LinProg.Proofs.Dictionary.Expulsion
import LinProg.Proofs.Dictionary.Indifference
import LinProg.Proofs.Dictionary.Dependence
import LinProg.Proofs.Normalization
import LinProg.Proofs.Command
import LinProg.Proofs.Json.Forms
import LinProg.Proofs.StandardForm.Meaning
import LinProg.Proofs.StandardForm.ClosedForm
import LinProg.Proofs.NearMiss
import LinProg.Proofs.Dictionary.Repetition
import LinProg.Proofs.Tolerance
import LinProg.Proofs.StandardForm.Layout
import LinProg.Proofs.Transcript
import LinProg.Proofs.Table
import LinProg.Proofs.Json.Answers
import LinProg.Proofs.Parsing
