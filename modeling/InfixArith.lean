import InfixArith.Accumulator
import InfixArith.Proofs.Blanks
import InfixArith.Proofs.Group
import InfixArith.Proofs.Readings
import InfixArith.Proofs.Refinement
import InfixArith.Proofs.Report
import InfixArith.Proofs.Unformatted
import InfixArith.Proofs.Numerals
import InfixArith.Proofs.Listing
import InfixArith.Proofs.Log
import InfixArith.Proofs.Stack
