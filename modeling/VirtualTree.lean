import VirtualTree.Expression.Poll
import VirtualTree.Update.Transfer
import VirtualTree.Proofs.Document.Clone
import VirtualTree.Proofs.Document.History
import VirtualTree.Proofs.Document.Insertion
import VirtualTree.Proofs.Expression.Budget
import VirtualTree.Proofs.Expression.Direct
import VirtualTree.Proofs.Expression.Failure
import VirtualTree.Proofs.Expression.Isolation
import VirtualTree.Proofs.Expression.Once
import VirtualTree.Proofs.Forest.Axes
import VirtualTree.Proofs.Forest.Siblings
import VirtualTree.Proofs.Forest.Slots
import VirtualTree.Proofs.Materialization.Order
import VirtualTree.Proofs.Order.Stable
import VirtualTree.Proofs.Update.Attributes
import VirtualTree.Proofs.Update.Children
import VirtualTree.Proofs.Update.Conflicts
import VirtualTree.Proofs.Update.Faithful
import VirtualTree.Proofs.Update.Inserted
import VirtualTree.Proofs.Update.Midway
import VirtualTree.Proofs.Update.Moved
import VirtualTree.Proofs.Update.Names
import VirtualTree.Proofs.Update.Survival
import VirtualTree.Proofs.Update.Transfer
import VirtualTree.Proofs.Tree.Markup
import VirtualTree.Proofs.Forest.Upwards
