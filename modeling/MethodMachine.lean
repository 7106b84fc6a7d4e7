import MethodMachine.Assembly
import MethodMachine.CommandLine.WorkingDirectory
import MethodMachine.Main
import MethodMachine.Proofs.DecoderAgreement
import MethodMachine.Proofs.Effects
import MethodMachine.Proofs.Runs
import MethodMachine.Proofs.ControlFlow
import MethodMachine.Proofs.Flattening
import MethodMachine.Proofs.RoundTrip
import MethodMachine.Proofs.Residue
import MethodMachine.Proofs.ViewedSteps
import MethodMachine.Proofs.BooleansAsInts
import MethodMachine.Proofs.FrameRule
import MethodMachine.Proofs.Relocation
import MethodMachine.Proofs.WordDepth
import MethodMachine.Proofs.ReturnAddresses
import MethodMachine.Proofs.Calls
import MethodMachine.Proofs.Completion
import MethodMachine.Proofs.Isolation
import MethodMachine.Proofs.Budgets
import MethodMachine.Proofs.ArrayAccess
import MethodMachine.Proofs.Writes
import MethodMachine.Proofs.TwoPasses
import MethodMachine.Proofs.HexText
import MethodMachine.Proofs.IntegerArguments
import MethodMachine.Proofs.Rounding
import MethodMachine.Proofs.Numerals
import MethodMachine.Proofs.Integers
import MethodMachine.Proofs.Truncation
import MethodMachine.Proofs.Increments
import MethodMachine.Proofs.Concatenation
import MethodMachine.Proofs.NearestRank
