import Beads.HierarchyProofs
import Beads.InterleavingProofs
import Beads.CoordinationProofs
import Beads.ClosedAtProofs
import Beads.TrackerPushProofs
import Beads.BatchProofs
import Beads.QueryProofs
import Beads.RenameProofs
import Beads.BlockedConsistencyProofs
import Beads.Cascade
import Beads.UpsertProofs
import Beads.IssueIdProofs
import Beads.SweepProofs
import Beads.TreeWalkProofs
import Beads.JournalResume
import Beads.KeysetProofs
import Beads.GraphLayoutProofs
import Beads.SwarmProofs
import Beads.GraphApplyCycleProofs
import Beads.PartialIdProofs
import Beads.ReadyWorkProofs
import Beads.BondedIds
import Beads.ListTreeProofs
import Beads.ReadyExplainProofs
import Beads.GatedReadyProofs
import Beads.ContentHashProofs
import Beads.ImportOrderProofs
import Beads.NaturalOrderProofs
import Beads.QueryRenderProofs
import Beads.QueryErrorProofs
import Beads.JsonValidatorProofs
import Beads.JsonIndent
import Beads.ComposeProofs
import Beads.ExpansionTextProofs
import Beads.ConditionProofs
import Beads.InlineExpansionProofs
import Beads.ExpandRuleProofs
import Beads.Batch
import Beads.TimeParsingProofs
import Beads.AutoMergeProofs
import Beads.WorkspaceGateProofs
