import Loadable.Main
import Loadable.Workbench
import Loadable.Proofs.Image.Corruption
import Loadable.Proofs.Image.Safety
import Loadable.Proofs.Image.Verdict
import Loadable.Proofs.Build.Independence
import Loadable.Proofs.Build.FirstPass
import Loadable.Proofs.Build.SecondPass
import Loadable.Proofs.Build.Limits
import Loadable.Proofs.Bundle.Verification
import Loadable.Proofs.Bundle.Alignment
import Loadable.Proofs.Atomicity
import Loadable.Proofs.Command.Agreement
import Loadable.Proofs.Build.Targets
import Loadable.Proofs.Build.Description
import Loadable.Proofs.Object.Exports
import Loadable.Proofs.Object.Elf.Symbols
import Loadable.Proofs.Format.Codec
import Loadable.Proofs.Tables
import Loadable.Proofs.Rounding
