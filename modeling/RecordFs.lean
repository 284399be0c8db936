import RecordFs.Main
import RecordFs.Proofs.Content.Partition
import RecordFs.Proofs.Lookup
import RecordFs.Proofs.Mount.Allotment
import RecordFs.Proofs.Mount.ChangeLaws
import RecordFs.Proofs.Mount.Counting
import RecordFs.Proofs.Mount.Paging
import RecordFs.Proofs.Mount.Refusing
import RecordFs.Proofs.Record.Canonical
import RecordFs.Proofs.Record.Uses
import RecordFs.Proofs.Renaming.Supplies
import RecordFs.Proofs.Shell.Ensuring
import RecordFs.Proofs.Shell.Outcomes
import RecordFs.Proofs.Shell.Placing
import RecordFs.Proofs.Shell.Spellings
import RecordFs.Proofs.Strict.Histories
import RecordFs.Proofs.Tree.AllOrNothing
import RecordFs.Proofs.Volume.FlatArray
import RecordFs.Proofs.Volume.References
import RecordFs.Proofs.Volume.Refusals
import RecordFs.Proofs.Volume.Reopening
import RecordFs.Proofs.Volume.Thrift
import RecordFs.Shell.Machine
import RecordFs.Proofs.Tree.Running
import RecordFs.Proofs.Tree.FullStores
