import LocalFleet.Node.Fleet

/-! Inquiries by name: what an inquiry is called, which node it is put to, and which chain it is
about. -/

namespace LocalFleet

namespace Call

def name : Call → String
  | createUser _ => "create_user"
  | importKey .. => "import_key"
  | createAddress .. => "create_address"
  | listAddresses .. => "list_addresses"
  | getBalance .. => "get_balance"
  | send _ => "send"
  | getUtxos .. => "get_utxos"
  | issueTx .. => "issue_tx"
  | getTxStatus .. => "get_tx_status"
  | createSubnet _ => "create_subnet"
  | getSubnets => "get_subnets"
  | addSubnetValidator _ => "add_subnet_validator"
  | createBlockchain _ => "create_blockchain"
  | getBlockchains => "get_blockchains"
  | getBlockchainStatus _ => "get_blockchain_status"
  | isBootstrapped _ => "is_bootstrapped"
  | getAssetId _ => "get_asset_id"
  | getBlockchainId _ => "get_blockchain_id"
  | getNodeId => "get_node_id"

def chain? : Call → Option Chain
  | importKey chain .. | createAddress chain _ | listAddresses chain _ | getBalance chain _
  | getUtxos chain .. | issueTx chain _ | getTxStatus chain _ => some chain
  | _ => none

end Call

namespace Inquiry

def name : Inquiry → String
  | launch _ => "launch"
  | waitHealthy => "wait_healthy"
  | listNodes => "list_nodes"
  | stop => "stop"
  | call _ c => c.name

/-- The node that is asked; `network` stands for the fleet as a whole. -/
def addressee : Inquiry → String
  | call node _ => node.name
  | _ => "network"

def chain? : Inquiry → Option Chain
  | call _ c => c.chain?
  | _ => none

end Inquiry

end LocalFleet
